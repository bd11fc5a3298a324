import Cheops.Canvas.Unmerge

/-! # Linking hosts

`net_page_map_page_objects` replaces the link between two hosts by a new one.  The old link is taken
out of the lists of both owners of its ends, which may be one host that has it twice, and the new
one is appended to both.
-/

namespace Cheops.Canvas

open Cheops.Lib

/-! ## `net_page_map_page_objects` -/

def PageObjectLink.Between (po1 po2 : Nat) (pol : PageObjectLink) : Prop :=
  (pol.po1 = po1 ∧ pol.po2 = po2) ∨ (pol.po1 = po2 ∧ pol.po2 = po1)

instance (po1 po2 : Nat) (pol : PageObjectLink) : Decidable (pol.Between po1 po2) :=
  inferInstanceAs (Decidable (_ ∨ _))

/-- The loop of `page_object_link_get` over a list. -/
def findLink (po1 po2 : Nat) (np : NetPage) : List Nat → Except Fault (Option Nat)
  | [] => .ok none
  | pol :: pols => do
    let l ← np.link pol
    if l.Between po1 po2 then return some pol else findLink po1 po2 np pols

def pageObjectLinkGet (po1 po2 : Nat) (np : NetPage) : Except Fault (Option Nat) := do
  let p1 := (← np.object po1).mergePrimary.getD po1
  let p2 := (← np.object po2).mergePrimary.getD po2
  let pol ← findLink po1 po2 np (← np.object p1).links
  if pol = none then findLink po1 po2 np (← np.object p2).links else return pol

def destroyBetween (po po2 : Nat) (np : NetPage) : Except Fault NetPage := do
  match ← pageObjectLinkGet po po2 np with
  | some pol => pageObjectLinkDestroy pol none np
  | none => return np

/-- `net_page_map_page_objects`.  The link is allocated at `pol`. -/
def netPageMapPageObjects (po po2 pol : Nat) (np : NetPage) : Except Fault NetPage :=
  if po ∈ np.pageObjects ∧ po2 ∈ np.pageObjects ∧ po ≠ po2 then do
    let np ← destroyBetween po po2 np
    let np ← destroyBetween po po2 np
    let merge1 := (← np.object po).mergePrimary
    let merge2 := (← np.object po2).mergePrimary
    let np := { np with links := Function.update np.links pol (some ⟨po, po2, merge1, merge2⟩) }
    let np ← np.modify (merge1.getD po) fun o => { o with links := o.links ++ [pol] }
    np.modify (merge2.getD po2) fun o => { o with links := o.links ++ [pol] }
  else .ok np

/-! ## The link that is found -/

variable {np np' : NetPage} {s : Shape} {po po1 po2 pol : Nat} {l : PageObjectLink}

def Joins (a b : Nat) (ends : Option (Nat × Nat)) : Prop := ends = some (a, b) ∨ ends = some (b, a)

instance (a b : Nat) (ends : Option (Nat × Nat)) : Decidable (Joins a b ends) :=
  inferInstanceAs (Decidable (_ ∨ _))

theorem joins_iff (link : np.links pol = some l) (a b : Nat) :
    Joins a b (np.realEnds pol) ↔ l.Between a b := by
  simp only [Joins, NetPage.realEnds, link, Option.map_some, Option.some.injEq, Prod.mk.injEq,
    PageObjectLink.Between]

theorem joins_link {a b : Nat} (joins : Joins a b (np.realEnds pol)) :
    ∃ l, np.links pol = some l ∧ l.Between a b := by
  cases link : np.links pol with
  | none => simp [Joins, NetPage.realEnds, link] at joins
  | some l => exact ⟨l, rfl, (joins_iff link a b).mp joins⟩

def Found (np : NetPage) (po1 po2 : Nat) (found : Option Nat) (P : Nat → Prop) : Prop :=
  match found with
  | some pol => Joins po1 po2 (np.realEnds pol)
  | none => ∀ pol, P pol → ¬ Joins po1 po2 (np.realEnds pol)

theorem findLink_ok (po1 po2 : Nat) {pols : List Nat}
    (alive : ∀ pol ∈ pols, ∃ l, np.links pol = some l) :
    ∃ found, findLink po1 po2 np pols = .ok found ∧ Found np po1 po2 found (· ∈ pols) := by
  induction pols with
  | nil => exact ⟨none, rfl, nofun⟩
  | cons pol pols ih =>
    obtain ⟨⟨l, link⟩, rest⟩ := List.forall_mem_cons.mp alive
    rw [findLink, NetPage.link, link]
    by_cases here : l.Between po1 po2
    case pos => exact ⟨some pol, if_pos here, (joins_iff link po1 po2).mpr here⟩
    case neg =>
      obtain ⟨found, run, result⟩ := ih rest
      refine ⟨found, (if_neg here).trans run, ?_⟩
      cases found with
      | some x => exact result
      | none =>
        intro x member
        rcases List.mem_cons.mp member with rfl | later
        · exact mt (joins_iff link po1 po2).mp here
        · exact result x later

/-- Every link between two hosts is found in the list of either owner. -/
theorem pageObjectLinkGet_ok (has : np.Has s) (listed1 : po1 ∈ np.pageObjects)
    (listed2 : po2 ∈ np.pageObjects) :
    ∃ found, pageObjectLinkGet po1 po2 np = .ok found ∧ Found np po1 po2 found fun _ => True := by
  obtain ⟨o1, object1⟩ := (has.alive po1).mp listed1
  obtain ⟨o2, object2⟩ := (has.alive po2).mp listed2
  obtain ⟨p1, primary1⟩ := (has.alive _).mp (has.own_mem listed1)
  obtain ⟨p2, primary2⟩ := (has.alive _).mp (has.own_mem listed2)
  have alive {h : Nat} {o : PageObject} (object : np.objects h = some o) :
      ∀ pol ∈ o.links, ∃ l, np.links pol = some l := by
    intro pol member
    obtain ⟨l, link, -⟩ := has.link_of_mem object member
    exact ⟨l, link⟩
  have owner1 := has.owner po1 o1 object1
  have owner2 := has.owner po2 o2 object2
  obtain ⟨found, run, result⟩ := findLink_ok po1 po2 (alive primary1)
  obtain ⟨found', run', result'⟩ := findLink_ok po1 po2 (alive primary2)
  rw [pageObjectLinkGet, NetPage.object, NetPage.object, object1, object2]
  change ∃ found, (np.object (o1.mergePrimary.getD po1) >>= _) = _ ∧ _
  rw [owner1, NetPage.object, primary1]
  change ∃ found, (findLink po1 po2 np p1.links >>= _) = _ ∧ _
  rw [run]
  change ∃ found', (if found = none then _ else _) = _ ∧ _
  cases found with
  | some pol => exact ⟨some pol, if_neg (Option.some_ne_none pol), result⟩
  | none =>
    have nowhere (pol : Nat) : ¬ Joins po1 po2 (np.realEnds pol) := by
      intro joins
      obtain ⟨l, link, between⟩ := joins_link joins
      refine result pol (mem_links has.listed primary1 link ?_) joins
      exact between.imp (congrArg s.own ·.1) (congrArg s.own ·.2)
    rw [if_pos rfl]
    change ∃ found', (np.object (o2.mergePrimary.getD po2) >>= _) = _ ∧ _
    rw [owner2, NetPage.object, primary2]
    refine ⟨found', run', ?_⟩
    cases found' with
    | some pol => exact absurd result' (nowhere pol)
    | none => exact fun pol _ => nowhere pol

/-! ## Lists -/

def NetPage.relisted (np : NetPage) (lists : Nat → List Nat → List Nat)
    (links : Nat → Option PageObjectLink) : NetPage :=
  { np with
    objects := fun h => (np.objects h).map fun o => { o with links := lists h o.links }
    links }

/-- The lists may change in any way that keeps every link at its owners. -/
theorem NetPage.Has.relisted {lists : Nat → List Nat → List Nat}
    {links : Nat → Option PageObjectLink} (has : np.Has s)
    (drawn : ∀ pol l, links pol = some l → l.po1 ≠ l.po2 ∧
      (l.end1 = s.own l.po1 ∧ s.own l.po1 ∈ np.pageObjects) ∧
      l.end2 = s.own l.po2 ∧ s.own l.po2 ∈ np.pageObjects)
    (count : ∀ h o, np.objects h = some o → ∀ pol,
      (lists h o.links).count pol = ends s.own (links pol) h) :
    (np.relisted lists links).Has s := by
  refine has.congr rfl (fun h => ?_) ⟨fun pol l link => (drawn pol l link).1,
    fun pol l link => (drawn pol l link).2.1, fun pol l link => (drawn pol l link).2.2, ?_⟩
  · dsimp only [NetPage.relisted]
    cases object : np.objects h with
    | none => exact .none
    | some o => exact .some ⟨rfl, rfl, has.unmerged h o object⟩
  · intro h o' object' _ pol
    obtain ⟨o, object, rfl⟩ := Option.map_eq_some_iff.mp object'
    exact count h o object pol

/-! ## The link that is destroyed -/

theorem unlist_none {e : Nat} {o : PageObject} (object : np.objects e = some o) :
    unlist pol e none np = .ok (np.adjust e fun o => { o with links := o.links.erase pol }) :=
  (if_neg nofun).trans (modify_eq object)

def eraseEnds (pol e1 e2 h : Nat) (pols : List Nat) : List Nat :=
  let pols := if h = e1 then pols.erase pol else pols
  if h = e2 then pols.erase pol else pols

def NetPage.unlinked (np : NetPage) (pol e1 e2 : Nat) : NetPage :=
  np.relisted (eraseEnds pol e1 e2) (Function.update np.links pol none)

theorem count_eraseEnds (e1 e2 h x : Nat) (pols : List Nat) :
    (eraseEnds pol e1 e2 h pols).count x = pols.count x -
      if x = pol then (if e1 = h then 1 else 0) + (if e2 = h then 1 else 0) else 0 := by
  unfold eraseEnds
  by_cases here : x = pol
  case pos =>
    subst here
    rw [if_pos rfl]
    split_ifs <;> simp only [List.count_erase_self] <;> omega
  case neg =>
    rw [if_neg here]
    split_ifs <;> simp only [List.count_erase_of_ne here, Nat.sub_zero]

theorem NetPage.Has.unlinked (has : np.Has s) (link : np.links pol = some l) :
    (np.unlinked pol (s.own l.po1) (s.own l.po2)).Has s := by
  refine has.relisted (fun x l' link' => ?_) fun h o object x => ?_
  · rw [Function.update_apply] at link'
    split at link'
    · cases link'
    · exact ⟨has.listed.apart x l' link', has.listed.drawn1 x l' link',
        has.listed.drawn2 x l' link'⟩
  · rw [count_eraseEnds, has.listed.count h o object nofun, Function.update_apply]
    split
    next here =>
      rw [here, link, ends, ends, Nat.sub_self]
    next => exact Nat.sub_zero _

theorem pageObjectLinkDestroy_ok (has : np.Has s) (link : np.links pol = some l) :
    pageObjectLinkDestroy pol none np = .ok (np.unlinked pol (s.own l.po1) (s.own l.po2)) := by
  obtain ⟨end1, listed1⟩ := has.listed.drawn1 pol l link
  obtain ⟨end2, listed2⟩ := has.listed.drawn2 pol l link
  obtain ⟨o1, object1⟩ := (has.alive _).mp listed1
  obtain ⟨o2, object2⟩ := (has.alive _).mp listed2
  obtain ⟨o2', object2'⟩ : ∃ o2', (np.adjust (s.own l.po1) fun o =>
      { o with links := o.links.erase pol }).objects (s.own l.po2) = some o2' :=
    adjust_alive object2
  rw [pageObjectLinkDestroy, NetPage.link, link]
  change (unlist pol l.end1 none np >>= fun np' => unlist pol l.end2 none np' >>= _) = _
  rw [end1, end2, unlist_none object1]
  change (unlist pol (s.own l.po2) none (np.adjust _ _) >>= _) = _
  rw [unlist_none object2']
  refine congrArg Except.ok (NetPage.ext rfl (funext fun h => ?_) rfl)
  dsimp only [NetPage.adjust, NetPage.unlinked, NetPage.relisted, eraseEnds]
  cases np.objects h with
  | none => split_ifs <;> rfl
  | some o => split_ifs <;> rfl

theorem destroyBetween_ok (has : np.Has s) (listed1 : po1 ∈ np.pageObjects)
    (listed2 : po2 ∈ np.pageObjects)
    (simple : ∀ x y, Joins po1 po2 (np.realEnds x) → Joins po1 po2 (np.realEnds y) → x = y) :
    ∃ np', destroyBetween po1 po2 np = .ok np' ∧ np'.Has s ∧ np'.pageObjects = np.pageObjects ∧
      ∀ pol, np'.realEnds pol =
        if Joins po1 po2 (np.realEnds pol) then none else np.realEnds pol := by
  obtain ⟨found, run, result⟩ := pageObjectLinkGet_ok has listed1 listed2
  rw [destroyBetween, run]
  cases found with
  | none => exact ⟨np, rfl, has, rfl, fun pol => (if_neg (result pol trivial)).symm⟩
  | some pol =>
    change Joins po1 po2 (np.realEnds pol) at result
    obtain ⟨l, link, -⟩ := joins_link result
    refine ⟨_, pageObjectLinkDestroy_ok has link, has.unlinked link, rfl, fun x => ?_⟩
    rw [NetPage.realEnds, NetPage.unlinked, NetPage.relisted]
    dsimp only
    by_cases here : x = pol
    case pos =>
      rw [here, Function.update_self, if_pos result]
      rfl
    case neg =>
      rw [Function.update_of_ne here, if_neg fun joins => here (simple x pol joins result)]
      rfl

/-! ## The new link -/

def appendEnds (pol e1 e2 h : Nat) (pols : List Nat) : List Nat :=
  let pols := if h = e1 then pols ++ [pol] else pols
  if h = e2 then pols ++ [pol] else pols

def NetPage.linked (np : NetPage) (pol e1 e2 : Nat) (l : PageObjectLink) : NetPage :=
  np.relisted (appendEnds pol e1 e2) (Function.update np.links pol (some l))

theorem count_appendEnds (e1 e2 h x : Nat) (pols : List Nat) :
    (appendEnds pol e1 e2 h pols).count x = pols.count x +
      if x = pol then (if e1 = h then 1 else 0) + (if e2 = h then 1 else 0) else 0 := by
  unfold appendEnds
  by_cases here : x = pol
  case pos =>
    subst here
    rw [if_pos rfl]
    split_ifs <;> simp only [List.count_append, List.count_singleton_self] <;> omega
  case neg =>
    have absent : [pol].count x = 0 := List.count_eq_zero.mpr (by simpa using here)
    rw [if_neg here]
    split_ifs <;> simp only [List.count_append, absent, Nat.add_zero]

theorem NetPage.Has.linked (has : np.Has s) (fresh : np.links pol = none) (apart : l.po1 ≠ l.po2)
    (listed1 : l.po1 ∈ np.pageObjects) (listed2 : l.po2 ∈ np.pageObjects)
    (end1 : l.end1 = s.own l.po1) (end2 : l.end2 = s.own l.po2) :
    (np.linked pol (s.own l.po1) (s.own l.po2) l).Has s := by
  refine has.relisted (fun x l' link' => ?_) fun h o object x => ?_
  · rw [Function.update_apply] at link'
    split at link'
    · cases link'
      exact ⟨apart, ⟨end1, has.own_mem listed1⟩, end2, has.own_mem listed2⟩
    · exact ⟨has.listed.apart x l' link', has.listed.drawn1 x l' link',
        has.listed.drawn2 x l' link'⟩
  · rw [count_appendEnds, has.listed.count h o object nofun, Function.update_apply]
    split
    next here =>
      rw [here, fresh, ends, ends, Nat.zero_add]
    next => exact Nat.add_zero _

/-- The ends of the links after `po` and `po2` have been linked by a link at `pol`. -/
def remap (po po2 pol : Nat) (ends : Nat → Option (Nat × Nat)) : Nat → Option (Nat × Nat) :=
  Function.update (fun x => if Joins po po2 (ends x) then none else ends x) pol (some (po, po2))

theorem netPageMapPageObjects_ok (has : np.Has s) (listed : po ∈ np.pageObjects)
    (listed2 : po2 ∈ np.pageObjects) (apart : po ≠ po2)
    (simple : ∀ x y, Joins po po2 (np.realEnds x) → Joins po po2 (np.realEnds y) → x = y)
    (free : np.links pol = none ∨ Joins po po2 (np.realEnds pol)) :
    ∃ np', netPageMapPageObjects po po2 pol np = .ok np' ∧ np'.Has s ∧
      np'.pageObjects = np.pageObjects ∧ np'.realEnds = remap po po2 pol np.realEnds := by
  have unlinked {np₀ : NetPage} (x : Nat)
      (ends : ∀ x, np₀.realEnds x = if Joins po po2 (np.realEnds x) then none else np.realEnds x) :
      ¬ Joins po po2 (np₀.realEnds x) := by
    rw [ends]
    split
    · simp [Joins]
    · assumption
  obtain ⟨np₁, run₁, has₁, pageObjects₁, ends₁⟩ := destroyBetween_ok has listed listed2 simple
  obtain ⟨np₂, run₂, has₂, pageObjects₂, ends₂⟩ := destroyBetween_ok has₁ (pageObjects₁ ▸ listed)
    (pageObjects₁ ▸ listed2) fun x _ joins => absurd joins (unlinked x ends₁)
  have ends (x : Nat) :
      np₂.realEnds x = if Joins po po2 (np.realEnds x) then none else np.realEnds x := by
    rw [ends₂, if_neg (unlinked x ends₁), ends₁]
  have pageObjects : np₂.pageObjects = np.pageObjects := pageObjects₂.trans pageObjects₁
  have fresh : np₂.links pol = none := by
    have gone : np₂.realEnds pol = none := by
      rw [ends]
      split
      · rfl
      next other =>
        rw [NetPage.realEnds, free.resolve_right other]
        rfl
    exact Option.map_eq_none_iff.mp gone
  obtain ⟨o1, object1⟩ := (has₂.alive po).mp (pageObjects ▸ listed)
  obtain ⟨o2, object2⟩ := (has₂.alive po2).mp (pageObjects ▸ listed2)
  have owner1 := has₂.owner po o1 object1
  have owner2 := has₂.owner po2 o2 object2
  let l : PageObjectLink := ⟨po, po2, o1.mergePrimary, o2.mergePrimary⟩
  let np₃ : NetPage := { np₂ with links := Function.update np₂.links pol (some l) }
  obtain ⟨p1, primary1⟩ : ∃ p1, np₃.objects (s.own po) = some p1 :=
    (has₂.alive _).mp (has₂.own_mem (pageObjects ▸ listed))
  obtain ⟨p2, primary2⟩ : ∃ p2, np₃.objects (s.own po2) = some p2 :=
    (has₂.alive _).mp (has₂.own_mem (pageObjects ▸ listed2))
  obtain ⟨p2', primary2'⟩ : ∃ p2', (np₃.adjust (s.own po) fun o =>
      { o with links := o.links ++ [pol] }).objects (s.own po2) = some p2' := adjust_alive primary2
  refine ⟨np₂.linked pol (s.own po) (s.own po2) l, ?_, ?_, pageObjects, ?_⟩
  · rw [netPageMapPageObjects, if_pos ⟨listed, listed2, apart⟩, run₁]
    change (destroyBetween po po2 np₁ >>= _) = _
    rw [run₂]
    change (np₂.object po >>= fun o => np₂.object po2 >>= _) = _
    rw [NetPage.object, NetPage.object, object1, object2]
    change (np₃.modify (o1.mergePrimary.getD po) _ >>= _) = _
    rw [owner1, modify_eq primary1]
    change NetPage.modify _ (o2.mergePrimary.getD po2) _ = _
    rw [owner2, modify_eq primary2']
    refine congrArg Except.ok (NetPage.ext rfl (funext fun h => ?_) rfl)
    dsimp only [NetPage.adjust, NetPage.linked, NetPage.relisted, appendEnds, np₃]
    cases np₂.objects h with
    | none => split_ifs <;> rfl
    | some o => split_ifs <;> rfl
  · exact has₂.linked (l := l) fresh apart (pageObjects ▸ listed) (pageObjects ▸ listed2) owner1
      owner2
  · funext x
    dsimp only [NetPage.realEnds, NetPage.linked, NetPage.relisted, remap]
    by_cases here : x = pol
    case pos =>
      rw [here, Function.update_self, Function.update_self]
      rfl
    case neg =>
      rw [Function.update_of_ne here, Function.update_of_ne here]
      exact ends x

end Cheops.Canvas
