import Cheops.Canvas.Delete
import Cheops.Canvas.Merge

/-! # Unmerging a primary

`page_object_unmerge` of a primary goes over its chain, and only then forgets the chain.  While it
does, the page is one where the chain begins with the members that are left (`NetPage.parked`).
-/

namespace Cheops.Canvas

open Cheops.Lib

variable {np np' : NetPage} {s : Shape} {p po : Nat} {o op : PageObject} {fuel : Nat}

def NetPage.parked (np : NetPage) (p : Nat) (m : Option Nat) : NetPage :=
  np.adjust p fun o => { o with merge := m, mergePrimary := if m = none then none else some p }

theorem adjust_inv {h : Nat} {f : PageObject → PageObject} {o' : PageObject}
    (object' : (np.adjust po f).objects h = some o') : ∃ o, np.objects h = some o := by
  rw [adjust_objects] at object'
  split at object'
  · obtain ⟨o, object, -⟩ := Option.map_eq_some_iff.mp object'
    exact ⟨o, object⟩
  · exact ⟨o', object'⟩

theorem NetPage.Listed.adjust {own : Nat → Nat} {but : Option Nat} {f : PageObject → PageObject}
    (listed : np.Listed own but) (keeps : ∀ o, (f o).links = o.links) :
    (np.adjust po f).Listed own but where
  apart := listed.apart
  drawn1 := listed.drawn1
  drawn2 := listed.drawn2
  count h o' object' side pol := by
    rw [adjust_objects] at object'
    split at object'
    · obtain ⟨o, object, rfl⟩ := Option.map_eq_some_iff.mp object'
      rw [keeps]
      exact listed.count h o object side pol
    · exact listed.count h o' object' side pol

theorem Unmerges.realEnds (unmerges : Unmerges np np' po) : np'.realEnds = np.realEnds := by
  funext pol
  rw [NetPage.realEnds, NetPage.realEnds, unmerges.links, Option.map_map]
  congr 1
  funext l
  dsimp only [Function.comp_apply]
  split
  · rw [detach_po1, detach_po2]
  · rfl

theorem parked_p (m : Option Nat) (primary : np.objects p = some op) :
    (np.parked p m).objects p = some ⟨m, if m = none then none else some p, op.links⟩ :=
  (if_pos rfl).trans (congrArg _ primary)

theorem parked_other {h : Nat} (m : Option Nat) (other : h ≠ p) :
    (np.parked p m).objects h = np.objects h := adjust_other _ other

def NetPage.released (np : NetPage) (p po : Nat) (links' : Nat → Option PageObjectLink)
    (pLinks' moved : List Nat) : NetPage :=
  (np.adjust po fun o => { o with merge := none, mergePrimary := none }).moved p po links' pLinks'
    moved

/-- One turn of the loop unmerges the first of the members that are left. -/
theorem released_parked {links' : Nat → Option PageObjectLink} {pLinks' moved : List Nat}
    (object : np.objects po = some o) (primary : np.objects p = some op) (other : po ≠ p) :
    (np.released p po links' pLinks' moved).parked p o.merge =
      (np.parked p (some po)).unmerged p po p o.merge links' pLinks' moved := by
  refine NetPage.ext rfl (funext fun h => ?_) rfl
  have object₀ : (np.parked p (some po)).objects po = some o := (parked_other _ other).trans object
  by_cases here : h = po
  case pos =>
    subst here
    rw [parked_other _ other, unmerged_po object₀ other other.symm]
    simp only [NetPage.released, NetPage.moved, NetPage.adjust, if_true, other, if_false, object,
      Option.map_some]
  by_cases same : h = p
  case pos =>
    subst same
    rw [unmerged_p (parked_p _ primary) other, if_pos rfl]
    simp only [NetPage.parked, NetPage.released, NetPage.moved, NetPage.adjust, if_true,
      other.symm, if_false, primary, Option.map_some]
    simp
  case neg =>
    rw [parked_other _ same, unmerged_other here same, if_neg same, parked_other _ same]
    simp only [NetPage.released, NetPage.moved, NetPage.adjust, here, same, if_false]

theorem unmergeMember_ok (has : (np.parked p (some po)).Has s) (object : np.objects po = some o)
    (primary : np.objects p = some op) (own : s.own p = p) (owned : s.own po = p) (other : po ≠ p)
    {xs : List Nat} (members : s.members p = po :: xs) (whole : s.tail p = none) :
    ∃ np', unmergeMember p po np = .ok np' ∧ (np'.parked p o.merge).Has (s.unmerge po) ∧
      Unmerges np np' po ∧ ∃ op', np'.objects p = some op' := by
  have object₀ : (np.parked p (some po)).objects po = some o := (parked_other _ other).trans object
  have primary₀ := parked_p (some po) primary
  have member : s.own po ≠ po := owned ▸ other.symm
  obtain ⟨links', pLinks', moved, moves, run⟩ := unmergeLinks_moves has primary₀ po
  let np₁ := np.adjust po fun o => { o with merge := none, mergePrimary := none }
  have has' : ((np.released p po links' pLinks' moved).parked p o.merge).Has (s.unmerge po) := by
    rw [released_parked object primary other]
    subst owned
    exact has.unmerge object₀ member primary₀ (show _ = [] ++ po :: xs from members) whole moves
  have object₁ : np₁.objects po = some ⟨none, none, o.links⟩ :=
    adjust_self (f := fun o => { o with merge := none, mergePrimary := none }) object
  have primary₁ : np₁.objects p = some op := (adjust_other _ other.symm).trans primary
  have moved_run : moveLinks p po np₁ = .ok (np.released p po links' pLinks' moved) := by
    refine moveLinks_eq object₁ primary₁ other ?_
    rw [show o.links = [] from has.no_links object₀ member]
    exact run
  have released : (np.released p po links' pLinks' moved).objects po =
      some ⟨none, none, moved⟩ := moved_po object₁ other
  have links := moves.links_map has (owned.symm ▸ primary₀)
  have drawn : pageObjectLinksMove (np.released p po links' pLinks' moved) moved = .ok () := by
    refine pageObjectLinksMove_eq fun pol member => ?_
    obtain ⟨-, l, link, -⟩ := moves.move pol member
    have link' : ((np.released p po links' pLinks' moved).parked p o.merge).links pol = _ :=
      (links pol).trans (congrArg _ link)
    obtain ⟨o1, o2, object1, object2⟩ := has'.drawn link'
    obtain ⟨o1, object1⟩ := adjust_inv object1
    obtain ⟨o2, object2⟩ := adjust_inv object2
    exact ⟨_, o1, o2, link', object1, object2⟩
  refine ⟨np.released p po links' pLinks' moved, ?_, has', ⟨rfl, links⟩, _, moved_p primary₁ other⟩
  rw [unmergeMember, modify_eq object]
  change (moveLinks p po np₁ >>= _) = _
  rw [moved_run]
  change ((np.released p po links' pLinks' moved).object po >>= _) = _
  rw [NetPage.object, released]
  change (pageObjectLinksMove (np.released p po links' pLinks' moved) moved >>=
    fun _ => .ok (np.released p po links' pLinks' moved)) = _
  rw [drawn]
  rfl

/-- The loop over the members of `p`.  The page, if the chain of `p` began with the members that are
    left, has a shape before each turn. -/
theorem unmergeMembers_ok {xs : List Nat} {n : Nat} {m : Option Nat} (has : (np.parked p m).Has s)
    (primary : np.objects p = some op) (own : s.own p = p) (members : s.members p = xs)
    (whole : s.tail p = none) (length : xs.length ≤ n) :
    ∃ np' s', forMerged (unmergeMember p) n m np = .ok np' ∧ (np'.parked p none).Has s' ∧
      np'.pageObjects = np.pageObjects ∧ np'.realEnds = np.realEnds ∧
      (∃ op', np'.objects p = some op') ∧ s'.members p = [] ∧
      (∀ h, s'.own h = if h ∈ xs then h else s.own h) ∧
      ∀ h, h ∈ xs ∨ s.tail h = none → s'.tail h = none := by
  have seg := has.chain p _ (parked_p m primary) own
  rw [members, whole] at seg
  induction xs generalizing np s op n m with
  | nil =>
    obtain rfl : m = none := seg
    exact ⟨np, s, by rw [forMerged], has, rfl, rfl, ⟨op, primary⟩, members, fun h => rfl,
      fun h none => none.resolve_left List.not_mem_nil⟩
  | cons x xs ih =>
    obtain ⟨nodup, grouped⟩ := has.members p (has.mem (parked_p m primary)) own
    rw [members] at nodup grouped
    obtain ⟨head, a, object_x, rest⟩ := seg
    obtain rfl : m = some x := head
    obtain ⟨owned, other⟩ := grouped x (.head _)
    have object : np.objects x = some a := (parked_other _ other).symm.trans object_x
    obtain ⟨np₁, run, has₁, unmerges, op₁, primary₁⟩ :=
      unmergeMember_ok has object primary own owned other members whole
    have own₁ : (s.unmerge x).own p = p := by rw [Shape.unmerge_own, if_neg other.symm, own]
    have members₁ : (s.unmerge x).members p = xs := by
      simp only [Shape.unmerge, other.symm, if_false, members, List.erase_cons_head]
    have whole₁ : (s.unmerge x).tail p = none := by
      simp only [Shape.unmerge, other.symm, if_false, whole]
    have seg₁ := has₁.chain p _ (parked_p a.merge primary₁) own₁
    rw [members₁, whole₁] at seg₁
    cases n with
    | zero => exact absurd length (Nat.not_succ_le_zero _)
    | succ n =>
      obtain ⟨np', s', run', has', pageObjects, realEnds, primary', alone, own', tail⟩ :=
        ih has₁ primary₁ own₁ members₁ whole₁ (Nat.le_of_succ_le_succ length) seg₁
      refine ⟨np', s', ?_, has', pageObjects.trans unmerges.pageObjects,
        realEnds.trans unmerges.realEnds, primary', alone, ?_, ?_⟩
      · rw [forMerged, NetPage.object, object]
        change (unmergeMember p x np >>= forMerged (unmergeMember p) n a.merge) = _
        rw [run]
        exact run'
      · intro h
        rw [own', Shape.unmerge_own]
        by_cases here : h = x
        · simp [here]
        · simp [here]
      · intro h none
        refine tail h ?_
        simp only [Shape.unmerge]
        split
        next => exact .inr rfl
        next here => exact none.imp_left fun member => (List.mem_cons.mp member).resolve_left here

/-- What `page_object_unmerge` does to a group. -/
theorem pageObjectUnmerge_primary (has : np.Has s) (object : np.objects p = some o)
    (own : s.own p = p) (primary : o.mergePrimary = some p)
    (whole : ∀ h ∈ np.pageObjects, s.own h = h → s.tail h = none)
    (enough : np.pageObjects.length ≤ fuel) :
    ∃ np' s', pageObjectUnmerge fuel p np = .ok np' ∧ np'.Has s' ∧
      np'.pageObjects = np.pageObjects ∧ np'.realEnds = np.realEnds ∧
      (∀ h ∈ np.pageObjects, s'.own h = if s.own h = p then h else s.own h) ∧
      ∀ h ∈ np'.pageObjects, s'.own h = h → s'.tail h = none := by
  have listed := has.mem object
  obtain ⟨nodup, members⟩ := has.members p listed own
  have group (h : Nat) (listed : h ∈ np.pageObjects) : h ∈ s.members p ↔ s.own h = p ∧ h ≠ p := by
    refine ⟨members h, fun ⟨owned, other⟩ => ?_⟩
    have member := (has.member h listed (owned ▸ other.symm)).2
    rwa [owned] at member
  have parked : (np.parked p o.merge).Has s := by
    refine has.congr rfl (fun h => ?_) (has.listed.adjust fun _ => rfl)
    by_cases here : h = p
    case pos =>
      rw [here, parked_p o.merge object, object]
      refine .some ⟨rfl, ?_, ?_⟩
      · rw [primary]
        dsimp only
        split <;> rfl
      · intro unmerged
        by_contra merged
        rw [if_neg merged] at unmerged
        cases unmerged
    case neg =>
      rw [parked_other _ here]
      cases other : np.objects h with
      | none => exact .none
      | some a => exact .some ⟨rfl, rfl, has.unmerged h a other⟩
  obtain ⟨np', s', run, has', pageObjects', realEnds, ⟨op', primary'⟩, -, own', tail⟩ :=
    unmergeMembers_ok parked object own rfl (whole p listed own)
      (Nat.le_trans (has.length_members listed own) enough)
  refine ⟨np'.parked p none, s', ?_, has', pageObjects', realEnds, ?_, ?_⟩
  · rw [pageObjectUnmerge, NetPage.object, object]
    change (if o.mergePrimary = some p then _ else _) = _
    rw [if_pos primary]
    rw [run]
    exact modify_eq primary'
  · intro h listed
    rw [own']
    by_cases here : h = p
    case pos => rw [here, own, if_pos rfl, ite_self]
    case neg => simp only [group h listed, here, ne_eq, not_false_eq_true, and_true]
  · intro h listed fixed
    change h ∈ np'.pageObjects at listed
    rw [pageObjects'] at listed
    refine tail h ?_
    by_cases member : h ∈ s.members p
    case pos => exact .inl member
    case neg =>
      rw [own', if_neg member] at fixed
      exact .inr (whole h listed fixed)

/-- `page_object_unmerge` of any host: it is in no group afterwards, and neither are its members. -/
theorem pageObjectUnmerge_ok (has : np.Has s) (listed : p ∈ np.pageObjects)
    (whole : ∀ h ∈ np.pageObjects, s.own h = h → s.tail h = none)
    (enough : np.pageObjects.length ≤ fuel) :
    ∃ np' s', pageObjectUnmerge fuel p np = .ok np' ∧ np'.Has s' ∧
      np'.pageObjects = np.pageObjects ∧ np'.realEnds = np.realEnds ∧
      (∀ h ∈ np.pageObjects, s'.own h = if h = p ∨ s.own h = p then h else s.own h) ∧
      ∀ h ∈ np'.pageObjects, s'.own h = h → s'.tail h = none := by
  obtain ⟨o, object⟩ := (has.alive p).mp listed
  by_cases own : s.own p = p
  case neg =>
    have never : ∀ h, s.own h ≠ p := never_owner own
    obtain ⟨np', run, has', unmerges, -⟩ := pageObjectUnmerge_member has object own
      (whole _ (has.own_mem listed) (s.own_own p)) enough
    refine ⟨np', s.unmerge p, run, has', unmerges.pageObjects, unmerges.realEnds, ?_, ?_⟩
    · intro h _
      rw [Shape.unmerge_own]
      simp only [never h, or_false]
      by_cases here : h = p
      · rw [if_pos here, if_pos here, here]
      · rw [if_neg here, if_neg here]
    · intro h listed' fixed
      rw [unmerges.pageObjects] at listed'
      rw [Shape.unmerge_own] at fixed
      dsimp only [Shape.unmerge]
      split at fixed
      next here => rw [if_pos here]
      next here =>
        rw [if_neg here]
        exact whole h listed' fixed
  case pos =>
    cases primary : o.mergePrimary with
    | some top =>
      obtain rfl : top = p := by
        have owner := has.owner p o object
        rwa [primary, own] at owner
      obtain ⟨np', s', run, has', pageObjects, realEnds, own', tail⟩ :=
        pageObjectUnmerge_primary has object own primary whole enough
      refine ⟨np', s', run, has', pageObjects, realEnds, fun h listed' => ?_, tail⟩
      rw [own' h listed']
      by_cases here : h = top
      · rw [here, own, if_pos rfl, if_pos (.inl rfl)]
      · simp only [here, false_or]
    | none =>
      obtain ⟨-, alone⟩ := has.alone object own primary
      refine ⟨np, s, ?_, has, rfl, rfl, fun h listed' => ?_, whole⟩
      · rw [pageObjectUnmerge, NetPage.object, object]
        change (if o.mergePrimary = some p then _ else _) = _
        rw [primary, if_neg (by simp)]
        rfl
      · split
        next here =>
          rcases here with rfl | owned
          · exact own
          · rw [alone h listed' owned, own]
        next => rfl

end Cheops.Canvas
