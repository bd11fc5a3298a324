import Cheops.Canvas.Destroy

/-! # Unmerging a member

`page_object_unmerge` gives a member its links back, wherever they stand in the list of the
primary, and takes it out of the chain.  The page is well formed afterwards.
-/

namespace Cheops.Canvas

open Cheops.Lib

variable {po p : Nat} {links links' : Nat → Option PageObjectLink}
  {pLinks pLinks' poLinks : List Nat}

/-! ## The links -/

def PageObjectLink.HasEnd (po : Nat) (l : PageObjectLink) : Prop := l.po1 = po ∨ l.po2 = po

instance (po : Nat) (l : PageObjectLink) : Decidable (l.HasEnd po) :=
  inferInstanceAs (Decidable (_ ∨ _))

/-- The end `po` of the link is drawn at `po`. -/
def PageObjectLink.detach (po : Nat) (l : PageObjectLink) : PageObjectLink :=
  if l.po1 = po then { l with merge1 := none } else { l with merge2 := none }

theorem detach_po1 (po : Nat) (l : PageObjectLink) : (l.detach po).po1 = l.po1 := by
  unfold PageObjectLink.detach
  split <;> rfl

theorem detach_po2 (po : Nat) (l : PageObjectLink) : (l.detach po).po2 = l.po2 := by
  unfold PageObjectLink.detach
  split <;> rfl

/-- The loop has nothing to do for `pol`. -/
def Settled (po : Nat) (links : Nat → Option PageObjectLink) (poLinks : List Nat) (pol : Nat) :
    Prop :=
  pol ∈ poLinks ∨ ∃ l, links pol = some l ∧ ¬ l.HasEnd po

/-- What the loop does: the links `moved` go from `p->links` to `po->links`. -/
structure Moves (po : Nat) (links links' : Nat → Option PageObjectLink)
    (pLinks pLinks' poLinks moved : List Nat) : Prop where
  nodup : moved.Nodup
  move : ∀ pol ∈ moved, pol ∉ poLinks ∧ ∃ l, links pol = some l ∧ l.HasEnd po
  links : ∀ pol, links' pol = if pol ∈ moved then (links pol).map (·.detach po) else links pol
  count : ∀ pol, pLinks'.count pol + moved.count pol = pLinks.count pol
  settled : ∀ pol ∈ pLinks', Settled po links' (poLinks ++ moved) pol

/-- One link is moved, and the loop starts again. -/
theorem Moves.cons {pol : Nat} {l : PageObjectLink} {moved : List Nat} (link : links pol = some l)
    (hasEnd : l.HasEnd po) (listed : pol ∈ pLinks) (fresh : pol ∉ poLinks)
    (moves : Moves po (Function.update links pol (some (l.detach po))) links' (pLinks.erase pol)
      pLinks' (poLinks ++ [pol]) moved) :
    Moves po links links' pLinks pLinks' poLinks (pol :: moved) where
  nodup := by
    refine List.nodup_cons.mpr ⟨fun member => ?_, moves.nodup⟩
    exact (moves.move pol member).1 (List.mem_append_right _ (.head _))
  move pol' member := by
    cases member with
    | head => exact ⟨fresh, l, link, hasEnd⟩
    | tail _ member =>
      obtain ⟨unlisted, l', link', hasEnd'⟩ := moves.move pol' member
      have other : pol' ≠ pol := by
        rintro rfl
        exact unlisted (List.mem_append_right _ (.head _))
      rw [Function.update_of_ne other] at link'
      exact ⟨fun member => unlisted (List.mem_append_left _ member), l', link', hasEnd'⟩
  links pol' := by
    rw [moves.links]
    by_cases same : pol' = pol
    · subst same
      have once : pol' ∉ moved := fun member =>
        (moves.move pol' member).1 (List.mem_append_right _ (.head _))
      rw [if_neg once, Function.update_self, if_pos (.head _), link]
      rfl
    · simp only [Function.update_of_ne same, List.mem_cons, same, false_or]
  count pol' := by
    have count := moves.count pol'
    by_cases same : pol' = pol
    · subst same
      have positive := List.count_pos_iff.mpr listed
      rw [List.count_erase_self] at count
      rw [List.count_cons_self]
      omega
    · rw [List.count_erase_of_ne same] at count
      rwa [List.count_cons_of_ne (Ne.symm same)]
  settled pol' member := by
    have settled := moves.settled pol' member
    rwa [List.append_assoc] at settled

theorem Moves.nil (settled : ∀ pol ∈ pLinks, Settled po links poLinks pol) :
    Moves po links links pLinks pLinks poLinks [] where
  nodup := .nil
  move := nofun
  links _ := rfl
  count _ := rfl
  settled := by rwa [List.append_nil]

theorem detach_alive {pol : Nat} {l : PageObjectLink}
    (alive : ∀ pol ∈ pLinks, ∃ l, links pol = some l) :
    ∀ x ∈ pLinks.erase pol, ∃ l', Function.update links pol (some (l.detach po)) x = some l' := by
  intro x member
  rw [Function.update_apply]
  split
  · exact ⟨_, rfl⟩
  · exact alive x (List.mem_of_mem_erase member)

def SettledTo (po : Nat) (links : Nat → Option PageObjectLink) (pLinks poLinks : List Nat)
    (current : Nat) : Prop :=
  ∀ i (h : i < pLinks.length), i < current → Settled po links poLinks pLinks[i]

theorem SettledTo.zero : SettledTo po links pLinks poLinks 0 := nofun

theorem SettledTo.succ {current : Nat} {h : current < pLinks.length}
    (settled : SettledTo po links pLinks poLinks current)
    (here : Settled po links poLinks pLinks[current]) :
    SettledTo po links pLinks poLinks (current + 1) := by
  intro i h before
  rcases Nat.lt_succ_iff_lt_or_eq.mp before with before | rfl
  · exact settled i h before
  · exact here

/-- The loop ends, and finds every link of `po` although it counts positions in a list that
    changes: whenever the list changes it starts again. -/
theorem unmergeLinks_ok (po : Nat) (links : Nat → Option PageObjectLink) (pLinks poLinks : List Nat)
    (current : Nat) (alive : ∀ pol ∈ pLinks, ∃ l, links pol = some l)
    (settled : SettledTo po links pLinks poLinks current) :
    ∃ links' pLinks' moved,
      unmergeLinks po links pLinks poLinks current = .ok (links', pLinks', poLinks ++ moved) ∧
        Moves po links links' pLinks pLinks' poLinks moved := by
  fun_induction unmergeLinks po links pLinks poLinks current with
  | case1 links pLinks poLinks current h pol listed ih =>
    exact ih alive (settled.succ (.inl listed))
  | case2 links pLinks poLinks current h pol unlisted gone =>
    obtain ⟨l, link⟩ := alive pol (List.getElem_mem h)
    rw [gone] at link
    cases link
  | case3 links pLinks poLinks current h pol unlisted l link first ih =>
    have detached : { l with merge1 := none } = l.detach po := (if_pos first).symm
    rw [detached] at ih
    obtain ⟨links', pLinks', moved, run, moves⟩ := ih (detach_alive alive) .zero
    rw [List.append_assoc] at run
    rw [detached]
    exact ⟨links', pLinks', pol :: moved, run,
      moves.cons link (.inl first) (List.getElem_mem h) unlisted⟩
  | case4 links pLinks poLinks current h pol unlisted l link first second ih =>
    have detached : { l with merge2 := none } = l.detach po := (if_neg first).symm
    rw [detached] at ih
    obtain ⟨links', pLinks', moved, run, moves⟩ := ih (detach_alive alive) .zero
    rw [List.append_assoc] at run
    rw [detached]
    exact ⟨links', pLinks', pol :: moved, run,
      moves.cons link (.inr second) (List.getElem_mem h) unlisted⟩
  | case5 links pLinks poLinks current h pol unlisted l link first second ih =>
    exact ih alive (settled.succ (.inr ⟨l, link, not_or.mpr ⟨first, second⟩⟩))
  | case6 links pLinks poLinks current h =>
    refine ⟨links, pLinks, [], by rw [List.append_nil], .nil ?_⟩
    intro pol member
    obtain ⟨i, bound, rfl⟩ := List.getElem_of_mem member
    exact settled i bound (by omega)

/-! ## The chain -/

variable {np : NetPage}

theorem set_objects (np : NetPage) (po : Nat) (o : PageObject) (h : Nat) :
    (np.set po o).objects h = if h = po then some o else np.objects h :=
  Function.update_apply _ _ _ _

theorem unchain_skip {fuel : Nat} {prev m : Option Nat} {xs : List Nat}
    (seg : Seg np.objects PageObject.merge m xs none) (absent : po ∉ xs)
    (enough : xs.length ≤ fuel) : unchain p po fuel prev m np = .ok np := by
  induction xs generalizing fuel prev m with
  | nil =>
    cases seg
    rw [unchain]
  | cons x xs ih =>
    obtain ⟨rfl, a, object, rest⟩ := seg
    obtain ⟨other, absent⟩ := not_or.mp (mt List.mem_cons.mpr absent)
    cases fuel with
    | zero => exact absurd enough (Nat.not_succ_le_zero _)
    | succ fuel =>
      rw [unchain, if_neg (Ne.symm other)]
      change (np.object x >>= fun o => unchain p po fuel (some x) o.merge np) = _
      rw [NetPage.object, object]
      exact ih rest absent (Nat.le_of_succ_le_succ enough)

/-- The record whose pointer leads to the host after `pre`. -/
def predecessor (p : Nat) (prev : Option Nat) (pre : List Nat) : Nat :=
  (pre.getLast?.or prev).getD p

/-- The chain is edited at the predecessor of `po`. -/
theorem unchain_found {fuel : Nat} {prev m : Option Nat} {pre post : List Nat} {o oq : PageObject}
    (seg : Seg np.objects PageObject.merge m (pre ++ po :: post) none)
    (nodup : (pre ++ po :: post).Nodup) (object : np.objects po = some o)
    (objectq : np.objects (predecessor p prev pre) = some oq)
    (outside : predecessor p prev pre ∉ po :: post)
    (enough : (pre ++ po :: post).length ≤ fuel) :
    unchain p po fuel prev m np =
      .ok (np.set (predecessor p prev pre) { oq with merge := o.merge }) := by
  induction pre generalizing fuel prev m with
  | nil =>
    obtain ⟨rfl, a, object', rest⟩ := seg
    cases object.symm.trans object'
    change np.objects (prev.getD p) = some oq at objectq
    change prev.getD p ∉ po :: post at outside
    cases fuel with
    | zero => exact absurd enough (Nat.not_succ_le_zero _)
    | succ fuel =>
      have here : po ≠ prev.getD p := fun same => outside (same ▸ .head _)
      have object₁ : (np.set (prev.getD p) { oq with merge := o.merge }).objects po = some o := by
        rw [set_objects, if_neg here, object]
      have rest₁ : Seg (np.set (prev.getD p) { oq with merge := o.merge }).objects PageObject.merge
          o.merge post none := by
        refine rest.congr fun x member a allocated => ⟨a, ?_, rfl⟩
        rw [set_objects, if_neg (by rintro rfl; exact outside (.tail _ member)), allocated]
      rw [unchain, if_pos rfl, NetPage.object, object]
      change (np.modify (prev.getD p) (fun o' => { o' with merge := o.merge }) >>= _) = _
      rw [NetPage.modify, NetPage.object, objectq]
      change ((np.set (prev.getD p) { oq with merge := o.merge }).object po >>= _) = _
      rw [NetPage.object, object₁]
      exact unchain_skip rest₁ (List.nodup_cons.mp nodup).1 (Nat.le_of_succ_le_succ enough)
  | cons x pre ih =>
    obtain ⟨rfl, a, object', rest⟩ := seg
    have same : predecessor p prev (x :: pre) = predecessor p (some x) pre := by
      simp only [predecessor, List.getLast?_cons]
      cases pre.getLast? <;> rfl
    obtain ⟨other, nodup⟩ := List.nodup_cons.mp nodup
    rw [same] at objectq outside ⊢
    cases fuel with
    | zero => exact absurd enough (Nat.not_succ_le_zero _)
    | succ fuel =>
      rw [unchain, if_neg (by rintro rfl; exact other (by simp))]
      change (np.object x >>= fun o => unchain p po fuel (some x) o.merge np) = _
      rw [NetPage.object, object']
      exact ih rest nodup objectq outside (Nat.le_of_succ_le_succ enough)

/-! ## The page without the member in its group -/

def Shape.unmerge (s : Shape) (po : Nat) : Shape where
  own := Function.update s.own po po
  members h := if h = po then [] else (s.members h).erase po
  tail h := if h = po then none else s.tail h
  own_own h := by
    by_cases here : h = po
    · simp [here]
    · rw [Function.update_of_ne here]
      by_cases owned : s.own h = po
      · rw [owned, Function.update_self]
      · rw [Function.update_of_ne owned, s.own_own]

def NetPage.adjust (np : NetPage) (po : Nat) (f : PageObject → PageObject) : NetPage :=
  { np with objects := fun h => if h = po then (np.objects h).map f else np.objects h }

theorem set_eq_adjust {f : PageObject → PageObject} {o : PageObject}
    (object : np.objects po = some o) : np.set po (f o) = np.adjust po f := by
  refine NetPage.ext rfl (funext fun h => ?_) rfl
  rw [set_objects]
  by_cases here : h = po
  · simp only [NetPage.adjust, here, if_true, object, Option.map_some]
  · simp only [NetPage.adjust, here, if_false]

theorem modify_eq {f : PageObject → PageObject} {o : PageObject} (object : np.objects po = some o) :
    np.modify po f = .ok (np.adjust po f) := by
  rw [NetPage.modify, NetPage.object, object, ← set_eq_adjust object]
  rfl

theorem adjust_alive {f : PageObject → PageObject} {o : PageObject} {h : Nat}
    (object : np.objects h = some o) : ∃ o', (np.adjust po f).objects h = some o' := by
  simp only [NetPage.adjust, object]
  split <;> exact ⟨_, rfl⟩

def NetPage.moved (np : NetPage) (p po : Nat) (links' : Nat → Option PageObjectLink)
    (pLinks' moved : List Nat) : NetPage :=
  (({ np with links := links' } : NetPage).adjust p fun o => { o with links := pLinks' }).adjust
    po fun o => { o with links := moved }

/-- What `page_object_unmerge` leaves, when `q` is the predecessor of `po` in the chain of `p`. -/
def NetPage.unmerged (np : NetPage) (p po q : Nat) (merge : Option Nat)
    (links' : Nat → Option PageObjectLink) (pLinks' moved : List Nat) : NetPage :=
  let np₂ := (np.moved p po links' pLinks' moved).adjust q fun o => { o with merge }
  let np₃ := np₂.adjust p fun o =>
    { o with mergePrimary := if o.merge = none then none else o.mergePrimary }
  np₃.adjust po fun o => { o with mergePrimary := none, merge := none }

variable {s : Shape} {o op : PageObject} {fuel : Nat}

theorem NetPage.Has.length_members (has : np.Has s) (listed : p ∈ np.pageObjects)
    (own : s.own p = p) : (s.members p).length ≤ np.pageObjects.length :=
  (List.subperm_of_subset (has.members p listed own).1 (has.members_alive listed own)).length_le

section unmerged

variable {q : Nat} {merge : Option Nat} {moved : List Nat}

theorem unmerged_po (object : np.objects po = some o) (other : po ≠ p) (outside : q ≠ po) :
    (np.unmerged p po q merge links' pLinks' moved).objects po = some ⟨none, none, moved⟩ := by
  simp only [NetPage.unmerged, NetPage.moved, NetPage.adjust, if_true, other, outside.symm,
    if_false, object, Option.map_some]

theorem unmerged_p (primary : np.objects p = some op) (other : po ≠ p) :
    (np.unmerged p po q merge links' pLinks' moved).objects p =
      some ⟨if p = q then merge else op.merge,
        if (if p = q then merge else op.merge) = none then none else op.mergePrimary, pLinks'⟩ := by
  by_cases pred : p = q
  · simp only [NetPage.unmerged, NetPage.moved, NetPage.adjust, if_true, other.symm, if_false,
      primary, Option.map_some, ← pred]
  · simp only [NetPage.unmerged, NetPage.moved, NetPage.adjust, if_true, other.symm, pred,
      if_false, primary, Option.map_some]

theorem unmerged_other {h : Nat} (other : h ≠ po) (member : h ≠ p) :
    (np.unmerged p po q merge links' pLinks' moved).objects h =
      if h = q then (np.objects h).map fun o => { o with merge } else np.objects h := by
  simp only [NetPage.unmerged, NetPage.moved, NetPage.adjust, other, member, if_false]

end unmerged

/-! ## The links without the member in its group -/

theorem detach_ends (own : Nat → Nat) (pol : Option PageObjectLink) (h : Nat) :
    ends own (pol.map (·.detach po)) h = ends own pol h := by
  cases pol with
  | none => rfl
  | some l => simp only [Option.map_some, ends, detach_po1, detach_po2]

theorem Moves.ends {pLinks : List Nat} {moved : List Nat}
    (moves : Moves po links links' pLinks pLinks' poLinks moved) (own : Nat → Nat) (pol h : Nat) :
    ends own (links' pol) h = Canvas.ends own (links pol) h := by
  rw [moves.links]
  split
  · exact detach_ends own _ h
  · rfl

/-- Whether an end is owned by `h`, once `po` owns itself. -/
theorem unmerge_own_iff (member : s.own po ≠ po) (x h : Nat) :
    (s.unmerge po).own x = h ↔ if h = po then x = po else s.own x = h ∧ x ≠ po := by
  have never : s.own x ≠ po := by
    intro same
    have fixed := s.own_own x
    rw [same] at fixed
    exact member fixed
  change Function.update s.own po po x = h ↔ _
  by_cases here : x = po
  · subst here
    rw [Function.update_self]
    split
    next same => simp [same]
    next other => simp [Ne.symm other]
  · rw [Function.update_of_ne here]
    split
    next same =>
      subst same
      exact ⟨fun same => absurd same never, fun same => absurd same here⟩
    next => exact (and_iff_left here).symm

/-- The counts of the links of `po` pass from its primary to `po`. -/
theorem unmerge_ends (member : s.own po ≠ po) (l : PageObjectLink) (apart : l.po1 ≠ l.po2) :
    ends (s.unmerge po).own (some l) po = (if l.HasEnd po then 1 else 0) ∧
    ends (s.unmerge po).own (some l) (s.own po) + (if l.HasEnd po then 1 else 0) =
      ends s.own (some l) (s.own po) ∧
    ∀ h, h ≠ po → h ≠ s.own po → ends (s.unmerge po).own (some l) h = ends s.own (some l) h := by
  simp only [ends, unmerge_own_iff member, if_true, member, if_false, PageObjectLink.HasEnd]
  by_cases first : l.po1 = po
  · have second : l.po2 ≠ po := fun same => apart (first.trans same.symm)
    refine ⟨by simp [first, second], by simp [first, second, Nat.add_comm], ?_⟩
    intro h other primary
    simp [first, second, other, Ne.symm primary]
  · by_cases second : l.po2 = po
    · refine ⟨by simp [first, second], by simp [first, second], ?_⟩
      intro h other primary
      simp [first, second, other, Ne.symm primary]
    · refine ⟨by simp [first, second], by simp [first, second], ?_⟩
      intro h other primary
      simp [first, second, other]

/-- The links that are moved are those with an end at `po`. -/
theorem mem_moved {moved : List Nat} (has : np.Has s) (primary : np.objects (s.own po) = some op)
    (moves : Moves po np.links links' op.links pLinks' [] moved) (pol : Nat) :
    pol ∈ moved ↔ ∃ l, np.links pol = some l ∧ l.HasEnd po := by
  constructor
  · exact fun member => (moves.move pol member).2
  · rintro ⟨l, link, hasEnd⟩
    by_contra left
    have listed : pol ∈ op.links :=
      mem_links has.listed primary link (hasEnd.imp (congrArg s.own) (congrArg s.own))
    have count := moves.count pol
    rw [List.count_eq_zero.mpr left, Nat.add_zero] at count
    have member : pol ∈ pLinks' := by
      rw [← List.count_pos_iff, count]
      exact List.count_pos_iff.mpr listed
    have same := moves.links pol
    rw [if_neg left, link] at same
    rcases moves.settled pol member with member | ⟨l', link', apart⟩
    · exact left (List.mem_append.mp member |>.resolve_left List.not_mem_nil)
    · cases same.symm.trans link'
      exact apart hasEnd

/-- The links, by what they were. -/
theorem Moves.links_map {moved : List Nat} (has : np.Has s)
    (primary : np.objects (s.own po) = some op)
    (moves : Moves po np.links links' op.links pLinks' [] moved) (pol : Nat) :
    links' pol = (np.links pol).map fun l => if l.HasEnd po then l.detach po else l := by
  rw [moves.links]
  have member := mem_moved has primary moves pol
  cases link : np.links pol with
  | none => simp
  | some l =>
    by_cases hasEnd : l.HasEnd po
    · rw [if_pos (member.mpr ⟨l, link, hasEnd⟩), Option.map_some, Option.map_some, if_pos hasEnd]
    · have unmoved : pol ∉ moved := by
        intro moved
        obtain ⟨l', link', hasEnd'⟩ := member.mp moved
        cases link.symm.trans link'
        exact hasEnd hasEnd'
      rw [if_neg unmoved, Option.map_some, if_neg hasEnd]

theorem count_moved {moved : List Nat} (has : np.Has s)
    (primary : np.objects (s.own po) = some op)
    (moves : Moves po np.links links' op.links pLinks' [] moved) (pol : Nat) :
    moved.count pol = (np.links pol).elim 0 fun l => if l.HasEnd po then 1 else 0 := by
  rw [moves.nodup.count]
  simp only [mem_moved has primary moves]
  cases np.links pol with
  | none => simp
  | some l => simp

theorem unmerge_listed {q : Nat} {merge : Option Nat} {moved : List Nat} (has : np.Has s)
    (object : np.objects po = some o) (member : s.own po ≠ po)
    (primary : np.objects (s.own po) = some op) (outside : q ≠ po)
    (moves : Moves po np.links links' op.links pLinks' [] moved) :
    (np.unmerged (s.own po) po q merge links' pLinks' moved).Listed (s.unmerge po).own none := by
  have links (pol : Nat) (l' : PageObjectLink) (link' : links' pol = some l') :
      ∃ l, np.links pol = some l ∧ l' = if l.HasEnd po then l.detach po else l := by
    rw [moves.links_map has primary, Option.map_eq_some_iff] at link'
    obtain ⟨l, link, rfl⟩ := link'
    exact ⟨l, link, rfl⟩
  have listed := has.mem object
  have moved_own (x : Nat) (owned : x ≠ po) : (s.unmerge po).own x = s.own x :=
    Function.update_of_ne owned _ _
  have own_po : (s.unmerge po).own po = po := Function.update_self _ _ _
  refine ⟨?_, ?_, ?_, ?_⟩
  · intro pol l' link'
    obtain ⟨l, link, rfl⟩ := links pol l' link'
    have apart := has.listed.apart pol l link
    split
    · rwa [detach_po1, detach_po2]
    · exact apart
  · intro pol l' link'
    obtain ⟨l, link, rfl⟩ := links pol l' link'
    obtain ⟨drawn, owner⟩ := has.listed.drawn1 pol l link
    by_cases first : l.po1 = po
    · rw [if_pos (.inl first), detach_po1, first, own_po, PageObjectLink.detach, if_pos first]
      exact ⟨first, listed⟩
    · have same : (if l.HasEnd po then l.detach po else l).end1 = l.end1 ∧
          (if l.HasEnd po then l.detach po else l).po1 = l.po1 := by
        split
        · rw [PageObjectLink.detach, if_neg first]
          exact ⟨rfl, rfl⟩
        · exact ⟨rfl, rfl⟩
      rw [same.1, same.2, moved_own _ first]
      exact ⟨drawn, owner⟩
  · intro pol l' link'
    obtain ⟨l, link, rfl⟩ := links pol l' link'
    obtain ⟨drawn, owner⟩ := has.listed.drawn2 pol l link
    by_cases second : l.po2 = po
    · have first : l.po1 ≠ po := fun same => has.listed.apart pol l link (same.trans second.symm)
      rw [if_pos (.inr second), detach_po2, second, own_po, PageObjectLink.detach, if_neg first]
      exact ⟨second, listed⟩
    · have same : (if l.HasEnd po then l.detach po else l).end2 = l.end2 ∧
          (if l.HasEnd po then l.detach po else l).po2 = l.po2 := by
        split
        next hasEnd =>
          rw [PageObjectLink.detach, if_pos (hasEnd.resolve_right second)]
          exact ⟨rfl, rfl⟩
        · exact ⟨rfl, rfl⟩
      rw [same.1, same.2, moved_own _ second]
      exact ⟨drawn, owner⟩
  · intro h o' object' _ pol
    change _ = ends _ (links' pol) h
    rw [moves.ends]
    have counted := moves.count pol
    rw [has.listed.count _ op primary nofun, count_moved has primary moves] at counted
    by_cases here : h = po
    · subst here
      cases (unmerged_po object member.symm outside).symm.trans object'
      change moved.count pol = _
      rw [count_moved has primary moves]
      cases link : np.links pol with
      | none => rfl
      | some l => exact (unmerge_ends member l (has.listed.apart pol l link)).1.symm
    by_cases prim : h = s.own po
    · subst prim
      cases (unmerged_p primary member.symm).symm.trans object'
      change pLinks'.count pol = _
      cases link : np.links pol with
      | none =>
        rw [link] at counted
        exact counted
      | some l =>
        have passed := (unmerge_ends member l (has.listed.apart pol l link)).2.1
        rw [link] at counted
        exact Nat.add_right_cancel (counted.trans passed.symm)
    · have kept : ∃ o₀, np.objects h = some o₀ ∧ o₀.links = o'.links := by
        rw [unmerged_other here prim] at object'
        split at object'
        · obtain ⟨o₀, object₀, rfl⟩ := Option.map_eq_some_iff.mp object'
          exact ⟨o₀, object₀, rfl⟩
        · exact ⟨o', object', rfl⟩
      obtain ⟨o₀, object₀, same⟩ := kept
      rw [← same, has.listed.count h o₀ object₀ nofun]
      cases link : np.links pol with
      | none => rfl
      | some l => exact ((unmerge_ends member l (has.listed.apart pol l link)).2.2 h here prim).symm

/-! ## The chain without the member -/

theorem predecessor_nil (p : Nat) : predecessor p none [] = p := rfl

theorem predecessor_concat (p y : Nat) (pre : List Nat) :
    predecessor p none (pre ++ [y]) = y := by
  simp [predecessor]

/-- What the predecessor of a member is. -/
theorem predecessor_cases (has : np.Has s) (listed : p ∈ np.pageObjects) (own : s.own p = p)
    {pre post : List Nat} (split : s.members p = pre ++ po :: post) :
    predecessor p none pre ∉ po :: post ∧ (predecessor p none pre = p ∨
      predecessor p none pre ∈ s.members p) := by
  obtain ⟨nodup, members⟩ := has.members p listed own
  rcases List.eq_nil_or_concat pre with rfl | ⟨pre', y, rfl⟩
  · refine ⟨fun member => ?_, .inl rfl⟩
    rw [predecessor_nil] at member
    exact (members p (by rw [split]; exact member)).2 rfl
  · rw [List.concat_eq_append] at split ⊢
    rw [predecessor_concat]
    rw [split] at nodup
    refine ⟨fun member => ?_, .inr (by rw [split]; simp)⟩
    exact (List.nodup_append'.mp nodup).2.2 (List.mem_append_right _ (.head _)) member

theorem unmerge_chain {pre post : List Nat} {moved : List Nat} (has : np.Has s)
    (object : np.objects po = some o) (primary : np.objects p = some op) (own : s.own p = p)
    (other : po ≠ p) (split : s.members p = pre ++ po :: post) (whole : s.tail p = none) :
    Seg (np.unmerged p po (predecessor p none pre) o.merge links' pLinks' moved).objects
      PageObject.merge (if p = predecessor p none pre then o.merge else op.merge) (pre ++ post)
      none := by
  obtain ⟨nodup, members⟩ := has.members p (has.mem primary) own
  have seg := has.chain p op primary own
  rw [whole, split] at seg
  rw [split] at nodup
  have absent : po ∉ pre ++ post := (List.nodup_middle.mp nodup |> List.nodup_cons.mp).1
  have member (x : Nat) (member : x ∈ pre ++ post) : x ≠ po ∧ x ≠ p := by
    refine ⟨by rintro rfl; exact absent member, (members x ?_).2⟩
    rw [split]
    rcases List.mem_append.mp member with first | second
    · exact List.mem_append_left _ first
    · exact List.mem_append_right _ (.tail _ second)
  rcases List.eq_nil_or_concat pre with rfl | ⟨pre', y, rfl⟩
  · obtain ⟨-, a, object', rest⟩ := seg
    cases object.symm.trans object'
    rw [predecessor_nil, if_pos rfl]
    refine rest.congr fun x listed a allocated => ⟨a, ?_, rfl⟩
    rw [unmerged_other (member x listed).1 (member x listed).2, if_neg (member x listed).2,
      allocated]
  · rw [List.concat_eq_append] at *
    rw [predecessor_concat]
    obtain ⟨yo, yp⟩ := member y (by simp)
    rw [if_neg (Ne.symm yp)]
    rw [List.append_assoc] at seg ⊢
    obtain ⟨b, allocated⟩ := seg.allocated y (by simp)
    refine seg.unlink object (b := { b with merge := o.merge }) ?_ rfl ?_
    · rw [unmerged_other yo yp, if_pos rfl, allocated]
      rfl
    · intro x listed c allocated
      have kept := member x (by
        rcases List.mem_append.mp listed with first | second
        · exact List.mem_append_left _ (List.mem_append_left _ first)
        · exact List.mem_append_right _ second)
      have before : x ≠ y := by
        rintro rfl
        rw [List.append_assoc] at nodup
        have unique := (List.nodup_cons.mp (List.nodup_middle.mp nodup)).1
        rcases List.mem_append.mp listed with first | second
        · exact unique (List.mem_append_left _ first)
        · exact unique (List.mem_append_right _ (.tail _ second))
      exact ⟨c, by rw [unmerged_other kept.1 kept.2, if_neg before, allocated], rfl⟩

theorem erase_split {pre post : List Nat} (nodup : (pre ++ po :: post).Nodup) :
    (pre ++ po :: post).erase po = pre ++ post := by
  have fresh : po ∉ pre := fun member =>
    (List.nodup_cons.mp (List.nodup_middle.mp nodup)).1 (List.mem_append_left _ member)
  rw [List.erase_append_right _ fresh, List.erase_cons_head]

/-- The page is what it was, but for `po`, which is unmerged. -/
theorem NetPage.Has.unmerge {pre post : List Nat} {moved : List Nat} (has : np.Has s)
    (object : np.objects po = some o) (member : s.own po ≠ po)
    (primary : np.objects (s.own po) = some op)
    (split : s.members (s.own po) = pre ++ po :: post) (whole : s.tail (s.own po) = none)
    (moves : Moves po np.links links' op.links pLinks' [] moved) :
    (np.unmerged (s.own po) po (predecessor (s.own po) none pre) o.merge links' pLinks' moved).Has
      (s.unmerge po) := by
  have fixed := s.own_own po
  obtain ⟨away, pred⟩ := predecessor_cases has (has.mem primary) fixed split
  have outside : predecessor (s.own po) none pre ≠ po :=
    (List.ne_and_not_mem_of_not_mem_cons away).1
  have listed := has.mem object
  have nodup := (has.members _ (has.mem primary) fixed).1
  rw [split] at nodup
  have never (x : Nat) : s.own x ≠ po := by
    intro same
    have fixed := s.own_own x
    rw [same] at fixed
    exact member fixed
  have own_po : (s.unmerge po).own po = po := Function.update_self _ _ _
  have own_other {x : Nat} (other : x ≠ po) : (s.unmerge po).own x = s.own x :=
    Function.update_of_ne other _ _
  -- The other hosts keep all but the pointer of the predecessor, which is in the same group.
  have kept {h : Nat} {o' : PageObject} (other : h ≠ po) (notp : h ≠ s.own po)
      (object' : (np.unmerged (s.own po) po (predecessor (s.own po) none pre) o.merge links' pLinks'
        moved).objects h = some o') :
      ∃ o₀, np.objects h = some o₀ ∧ o₀.mergePrimary = o'.mergePrimary ∧
        (s.own h ≠ s.own po → o₀.merge = o'.merge) := by
    rw [unmerged_other other notp] at object'
    split at object'
    next here =>
      obtain ⟨o₀, object₀, rfl⟩ := Option.map_eq_some_iff.mp object'
      refine ⟨o₀, object₀, rfl, fun elsewhere => absurd ?_ elsewhere⟩
      rw [here]
      exact ((has.members _ (has.mem primary) fixed).2 _ (pred.resolve_left (here ▸ notp))).1
    next => exact ⟨o', object', rfl, fun _ => rfl⟩
  have alive (h : Nat) : (∃ o', (np.unmerged (s.own po) po (predecessor (s.own po) none pre) o.merge
      links' pLinks' moved).objects h = some o') ↔ ∃ o', np.objects h = some o' := by
    by_cases here : h = po
    · subst here
      exact ⟨fun _ => ⟨o, object⟩, fun _ => ⟨_, unmerged_po object member.symm outside⟩⟩
    by_cases prim : h = s.own po
    · subst prim
      exact ⟨fun _ => ⟨op, primary⟩, fun _ => ⟨_, unmerged_p primary member.symm⟩⟩
    · rw [unmerged_other here prim]
      split
      · constructor
        · rintro ⟨o', object'⟩
          obtain ⟨o₀, object₀, -⟩ := Option.map_eq_some_iff.mp object'
          exact ⟨o₀, object₀⟩
        · rintro ⟨o₀, object₀⟩
          exact ⟨_, congrArg _ object₀⟩
      · exact Iff.rfl
  refine ⟨has.nodup, fun h => (has.alive h).trans (alive h).symm, ?_, ?_, ?_, ?_, ?_, ?_,
    unmerge_listed has object member primary outside moves⟩
  case refine_1 =>
    intro h o' object'
    by_cases here : h = po
    · subst here
      cases (unmerged_po object member.symm outside).symm.trans object'
      exact own_po.symm
    by_cases prim : h = s.own po
    · subst prim
      have owner := has.owner _ op primary
      cases (unmerged_p primary member.symm).symm.trans object'
      rw [own_other member, fixed]
      rw [fixed] at owner
      dsimp only
      generalize (if s.own po = predecessor (s.own po) none pre then o.merge else op.merge) = merge
      split
      · rfl
      · exact owner
    · obtain ⟨o₀, object₀, same, -⟩ := kept here prim object'
      rw [own_other here, ← same]
      exact has.owner h o₀ object₀
  case refine_2 =>
    intro h o' object' unmerged
    by_cases here : h = po
    · subst here
      cases (unmerged_po object member.symm outside).symm.trans object'
      rfl
    by_cases prim : h = s.own po
    · subst prim
      have merged : op.mergePrimary ≠ none := by
        intro alone
        have seg := has.chain _ op primary fixed
        rw [has.unmerged _ op primary alone, split] at seg
        exact absurd seg.nil_of_none.1 (by simp)
      cases (unmerged_p primary member.symm).symm.trans object'
      dsimp only at unmerged ⊢
      generalize (if s.own po = predecessor (s.own po) none pre then o.merge else op.merge) = merge
        at unmerged ⊢
      split at unmerged
      next gone => exact gone
      next => exact absurd unmerged merged
    · obtain ⟨o₀, object₀, same, merge⟩ := kept here prim object'
      have away : s.own h ≠ s.own po := by
        intro grouped
        rw [← same, has.mergePrimary object₀ (grouped ▸ Ne.symm prim)] at unmerged
        cases unmerged
      rw [← merge away]
      exact has.unmerged h o₀ object₀ (same.trans unmerged)
  case refine_3 =>
    intro h o' object' own
    by_cases here : h = po
    · subst here
      cases (unmerged_po object member.symm outside).symm.trans object'
      simp only [Shape.unmerge, if_true]
      rfl
    rw [own_other here] at own
    simp only [Shape.unmerge, here, if_false]
    by_cases prim : h = s.own po
    · subst prim
      cases (unmerged_p primary member.symm).symm.trans object'
      rw [split, erase_split nodup, whole]
      exact unmerge_chain has object primary fixed member.symm split whole
    · obtain ⟨o₀, object₀, -, merge⟩ := kept here prim object'
      have members := (has.members h (has.mem object₀) own).2
      have absent : po ∉ s.members h := fun listed => prim ((members po listed).1).symm
      rw [List.erase_of_not_mem absent, ← merge (by rwa [own])]
      refine (has.chain h o₀ object₀ own).congr fun x listed a allocated => ⟨a, ?_, rfl⟩
      have owned := (members x listed).1
      have notpo : x ≠ po := fun same => absent (same ▸ listed)
      have notp : x ≠ s.own po := fun same => prim (owned.symm.trans (same ▸ fixed))
      rw [unmerged_other notpo notp, if_neg ?_, allocated]
      rintro rfl
      rcases pred with pred | pred
      · exact notp pred
      · exact prim (owned.symm.trans ((has.members _ (has.mem primary) fixed).2 _ pred).1)
  case refine_4 =>
    intro h listed away
    have here : h ≠ po := by
      rintro rfl
      exact away own_po
    rw [own_other here] at away ⊢
    obtain ⟨owner, grouped⟩ := has.member h listed away
    refine ⟨owner, ?_⟩
    simp only [Shape.unmerge, never h, if_false]
    exact (List.mem_erase_of_ne here).mpr grouped
  case refine_5 =>
    intro r listed own
    by_cases here : r = po
    · subst here
      simp [Shape.unmerge]
    rw [own_other here] at own
    obtain ⟨nodup, members⟩ := has.members r listed own
    simp only [Shape.unmerge, here, if_false]
    refine ⟨nodup.erase po, fun h grouped => ?_⟩
    obtain ⟨other, grouped⟩ := nodup.mem_erase_iff.mp grouped
    rw [Function.update_of_ne other]
    exact members h grouped
  case refine_6 =>
    intro r listed own d tail
    by_cases here : r = po
    · simp [Shape.unmerge, here] at tail
    rw [own_other here] at own
    simp only [Shape.unmerge, here, if_false] at tail
    have gone := has.dangling r listed own d tail
    rw [Option.eq_none_iff_forall_ne_some]
    intro o' object'
    obtain ⟨o₀, object₀⟩ := (alive d).mp ⟨o', object'⟩
    rw [gone] at object₀
    cases object₀

/-! ## `page_object_unmerge` -/

theorem pageObjectLinksMove_eq {pols : List Nat}
    (drawn : ∀ pol ∈ pols, ∃ l o1 o2, np.links pol = some l ∧ np.objects l.end1 = some o1 ∧
      np.objects l.end2 = some o2) : pageObjectLinksMove np pols = .ok () := by
  induction pols with
  | nil => rw [pageObjectLinksMove]
  | cons pol pols ih =>
    obtain ⟨⟨l, o1, o2, link, object1, object2⟩, rest⟩ := List.forall_mem_cons.mp drawn
    rw [pageObjectLinksMove, NetPage.link, link]
    change (np.object l.end1 >>= fun _ => np.object l.end2 >>= _) = _
    rw [NetPage.object, NetPage.object, object1, object2]
    exact ih rest

/-- The hosts at which a link is drawn are on the page. -/
theorem NetPage.Has.drawn (has : np.Has s) {pol : Nat} {l : PageObjectLink}
    (link : np.links pol = some l) :
    ∃ o1 o2, np.objects l.end1 = some o1 ∧ np.objects l.end2 = some o2 := by
  obtain ⟨end1, listed1⟩ := has.listed.drawn1 pol l link
  obtain ⟨end2, listed2⟩ := has.listed.drawn2 pol l link
  obtain ⟨o1, object1⟩ := (has.alive _).mp listed1
  obtain ⟨o2, object2⟩ := (has.alive _).mp listed2
  exact ⟨o1, o2, end1 ▸ object1, end2 ▸ object2⟩

theorem pageObjectLinksMove_ok (has : np.Has s) {pols : List Nat}
    (alive : ∀ pol ∈ pols, ∃ l, np.links pol = some l) : pageObjectLinksMove np pols = .ok () := by
  refine pageObjectLinksMove_eq fun pol member => ?_
  obtain ⟨l, link⟩ := alive pol member
  obtain ⟨o1, o2, objects⟩ := has.drawn link
  exact ⟨l, o1, o2, link, objects⟩

theorem unmergeLinks_moves (has : np.Has s) (primary : np.objects p = some op) (po : Nat) :
    ∃ links' pLinks' moved, Moves po np.links links' op.links pLinks' [] moved ∧
      unmergeLinks po np.links op.links [] 0 = .ok (links', pLinks', moved) := by
  have alive : ∀ pol ∈ op.links, ∃ l, np.links pol = some l := by
    intro pol listed
    obtain ⟨l, link, -⟩ := has.link_of_mem primary listed
    exact ⟨l, link⟩
  obtain ⟨links', pLinks', moved, run, moves⟩ :=
    unmergeLinks_ok po np.links op.links [] 0 alive .zero
  exact ⟨links', pLinks', moved, moves, run⟩

theorem moveLinks_eq {moved : List Nat} (object : np.objects po = some o)
    (primary : np.objects p = some op) (other : po ≠ p)
    (run : unmergeLinks po np.links op.links o.links 0 = .ok (links', pLinks', moved)) :
    moveLinks p po np = .ok (np.moved p po links' pLinks' moved) := by
  rw [moveLinks, NetPage.object, NetPage.object, primary, object]
  change (unmergeLinks po np.links op.links o.links 0 >>= _) = _
  rw [run]
  let np₀ : NetPage := { np with links := links' }
  have first : np₀.set p { op with links := pLinks' } =
      np₀.adjust p fun o => { o with links := pLinks' } :=
    set_eq_adjust (f := fun o => { o with links := pLinks' }) primary
  have second : (np₀.adjust p fun o => { o with links := pLinks' }).objects po = some o := by
    simp only [np₀, NetPage.adjust, other, if_false, object]
  exact congrArg Except.ok ((congrArg (NetPage.set · po { o with links := moved }) first).trans
    (set_eq_adjust (f := fun o => { o with links := moved }) second))

theorem moveLinks_ok (has : np.Has s) (object : np.objects po = some o) (member : s.own po ≠ po)
    (primary : np.objects (s.own po) = some op) :
    ∃ links' pLinks' moved, Moves po np.links links' op.links pLinks' [] moved ∧
      moveLinks (s.own po) po np = .ok (np.moved (s.own po) po links' pLinks' moved) := by
  obtain ⟨links', pLinks', moved, moves, run⟩ := unmergeLinks_moves has primary po
  refine ⟨links', pLinks', moved, moves, moveLinks_eq object primary member.symm ?_⟩
  rw [has.no_links object member]
  exact run

section moved

variable {moved : List Nat} {h : Nat}

theorem moved_po (object : np.objects po = some o) (other : po ≠ p) :
    (np.moved p po links' pLinks' moved).objects po = some { o with links := moved } := by
  simp only [NetPage.moved, NetPage.adjust, if_true, other, if_false, object, Option.map_some]

theorem moved_p (primary : np.objects p = some op) (other : po ≠ p) :
    (np.moved p po links' pLinks' moved).objects p = some { op with links := pLinks' } := by
  simp only [NetPage.moved, NetPage.adjust, if_true, other.symm, if_false, primary, Option.map_some]

theorem moved_merge (object : np.objects h = some o) :
    ∃ o', (np.moved p po links' pLinks' moved).objects h = some o' ∧ o'.merge = o.merge := by
  simp only [NetPage.moved, NetPage.adjust, object]
  split_ifs <;> exact ⟨_, rfl, rfl⟩

end moved

/-- What `page_object_unmerge` does to a member of a group whose chain does not dangle. -/
structure Unmerges (np np' : NetPage) (po : Nat) : Prop where
  pageObjects : np'.pageObjects = np.pageObjects
  links : ∀ pol, np'.links pol = (np.links pol).map fun l => if l.HasEnd po then l.detach po else l

theorem pageObjectUnmerge_member (has : np.Has s) (object : np.objects po = some o)
    (member : s.own po ≠ po) (whole : s.tail (s.own po) = none)
    (enough : np.pageObjects.length ≤ fuel) :
    ∃ np', pageObjectUnmerge fuel po np = .ok np' ∧ np'.Has (s.unmerge po) ∧ Unmerges np np' po ∧
      ∀ h, s.own h ≠ s.own po → np'.objects h = np.objects h := by
  have fixed := s.own_own po
  obtain ⟨owner, grouped⟩ := has.member po (has.mem object) member
  obtain ⟨op, primary⟩ := (has.alive _).mp owner
  obtain ⟨pre, post, split⟩ := List.append_of_mem grouped
  obtain ⟨away, pred⟩ := predecessor_cases has owner fixed split
  have short := has.length_members owner fixed
  have nodup := (has.members _ owner fixed).1
  obtain ⟨links', pLinks', moved, moves, run⟩ := moveLinks_ok has object member primary
  have result := has.unmerge object member primary split whole moves
  have mergePrimary := has.mergePrimary object member
  have outside : predecessor (s.own po) none pre ≠ po :=
    (List.ne_and_not_mem_of_not_mem_cons away).1
  have seg := has.chain _ op primary fixed
  rw [whole, split] at seg
  rw [split] at nodup short
  refine ⟨_, ?_, result, ⟨rfl, moves.links_map has primary⟩, ?_⟩
  · have seg₁ : Seg (np.moved (s.own po) po links' pLinks' moved).objects PageObject.merge op.merge
        (pre ++ po :: post) none := seg.congr fun x _ a allocated => moved_merge allocated
    obtain ⟨oq, objectq⟩ : ∃ oq, np.objects (predecessor (s.own po) none pre) = some oq := by
      rcases pred with pred | pred
      · exact ⟨op, by rw [pred, primary]⟩
      · exact (has.alive _).mp (has.members_alive owner fixed _ pred)
    let np₁ := np.moved (s.own po) po links' pLinks' moved
    let np₂ := np₁.adjust (predecessor (s.own po) none pre) fun oq => { oq with merge := o.merge }
    let np₃ := np₂.adjust (s.own po) fun o =>
      { o with mergePrimary := if o.merge = none then none else o.mergePrimary }
    obtain ⟨oq₁, objectq₁, -⟩ : ∃ oq₁, np₁.objects (predecessor (s.own po) none pre) = some oq₁ ∧
        oq₁.merge = oq.merge := moved_merge objectq
    have object₁ : np₁.objects po = some { o with links := moved } := moved_po object member.symm
    have primary₁ : np₁.objects (s.own po) = some { op with links := pLinks' } :=
      moved_p primary member.symm
    obtain ⟨op₂, primary₂⟩ : ∃ op₂, np₂.objects (s.own po) = some op₂ := adjust_alive primary₁
    obtain ⟨o₂, object₂⟩ : ∃ o₂, np₂.objects po = some o₂ := adjust_alive object₁
    obtain ⟨o₃, object₃⟩ : ∃ o₃, np₃.objects po = some o₃ := adjust_alive object₂
    have chained : unchain (s.own po) po fuel none op.merge np₁ = .ok np₂ :=
      (unchain_found seg₁ nodup object₁ objectq₁ away (Nat.le_trans short enough)).trans
        (congrArg Except.ok (set_eq_adjust (f := fun oq => { oq with merge := o.merge }) objectq₁))
    have drawn : pageObjectLinksMove (np.unmerged (s.own po) po (predecessor (s.own po) none pre)
        o.merge links' pLinks' moved) moved = .ok () := by
      refine pageObjectLinksMove_ok result fun pol member => ?_
      obtain ⟨-, l, link, -⟩ := moves.move pol member
      exact ⟨_, (moves.links_map has primary pol).trans (congrArg _ link)⟩
    rw [pageObjectUnmerge, NetPage.object, object]
    change (if o.mergePrimary = some po then _ else _) = _
    rw [if_neg (by rw [mergePrimary]; simpa using member), mergePrimary]
    change (moveLinks (s.own po) po np >>= _) = _
    rw [run]
    change (np₁.object (s.own po) >>= _) = _
    rw [NetPage.object, primary₁]
    change (unchain (s.own po) po fuel none op.merge np₁ >>= _) = _
    rw [chained]
    change (np₂.modify (s.own po) _ >>= _) = _
    rw [modify_eq primary₂]
    change (np₃.modify po _ >>= _) = _
    rw [modify_eq object₃]
    change ((np.unmerged (s.own po) po _ o.merge links' pLinks' moved).object po >>= _) = _
    rw [NetPage.object, unmerged_po object member.symm outside]
    change (pageObjectLinksMove (np.unmerged (s.own po) po _ o.merge links' pLinks' moved) moved >>=
      fun _ => .ok (np.unmerged (s.own po) po _ o.merge links' pLinks' moved)) = _
    rw [drawn]
    rfl
  · intro h away'
    have here : h ≠ po := by
      rintro rfl
      exact away' rfl
    have prim : h ≠ s.own po := by
      rintro rfl
      exact away' fixed
    rw [unmerged_other here prim, if_neg]
    rintro rfl
    rcases pred with pred | pred
    · exact prim pred
    · exact away' ((has.members _ owner fixed).2 _ pred).1

end Cheops.Canvas
