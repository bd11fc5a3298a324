import Cheops.Canvas.MergeMany

/-! # A page in use (`gui-canvas.c`, `gui-handlers.c`)

The user selects hosts with the mouse and changes groups through the menu of a host, while replies
of the agent add hosts and links.  The selected hosts are highlighted, and chained by their `plink`;
only a host that is drawn can be clicked, and a member of a group is not drawn.

The hosts that `net_page_merge_plink` merges are those of the chain.  No member of a group comes
there, so the merge graph stays well formed whatever the user does (`session_kept`).  Hosts are not
deleted here, and links are not removed.
-/

namespace Cheops.Canvas

open Cheops.Lib

/-! ## New hosts -/

/-- The host that `page_object_new` allocates at `addr` is put in front of the others. -/
def NetPage.add (np : NetPage) (addr : Nat) : NetPage :=
  { np with
    pageObjects := addr :: np.pageObjects
    objects := Function.update np.objects addr (some ⟨none, none, []⟩) }

section Add

variable {np : NetPage} {addr : Nat}

theorem add_object : (np.add addr).objects addr = some ⟨none, none, []⟩ := Function.update_self ..

theorem add_objects {h : Nat} (other : h ≠ addr) : (np.add addr).objects h = np.objects h :=
  Function.update_of_ne other _ _

theorem add_owner (free : np.objects addr = none) : (np.add addr).owner = np.owner := by
  funext h
  by_cases here : h = addr
  case pos =>
    rw [here, NetPage.owner, NetPage.owner, free, add_object]
    rfl
  case neg => rw [NetPage.owner, NetPage.owner, add_objects here]

/-- The new host is in no group, and on no link. -/
theorem NetPage.MergeGraph.add (graph : np.MergeGraph) (free : np.objects addr = none) :
    (np.add addr).MergeGraph := by
  have unlisted : addr ∉ np.pageObjects := by
    intro listed
    obtain ⟨o, object⟩ := (graph.alive addr).mp listed
    exact absurd (free.symm.trans object) nofun
  have other {h : Nat} (listed : h ∈ np.pageObjects) : h ≠ addr :=
    fun same => unlisted (same ▸ listed)
  have keep {h : Nat} {o : PageObject} (object : np.objects h = some o) :
      (np.add addr).objects h = some o :=
    (add_objects (other ((graph.alive h).mpr ⟨o, object⟩))).trans object
  have split {h : Nat} {o : PageObject} (object : (np.add addr).objects h = some o) :
      h = addr ∧ o = ⟨none, none, []⟩ ∨ h ≠ addr ∧ np.objects h = some o := by
    by_cases here : h = addr
    case pos => exact .inl ⟨here, Option.some.inj ((here ▸ object).symm.trans add_object)⟩
    case neg => exact .inr ⟨here, (add_objects here).symm.trans object⟩
  refine ⟨List.nodup_cons.mpr ⟨unlisted, graph.nodup⟩, fun h => ⟨fun listed => ?_, ?_⟩, ?_, ?_, ?_,
    ?_, ?_, ?_, graph.simple⟩
  case refine_1 =>
    rcases List.mem_cons.mp listed with rfl | listed
    · exact ⟨_, add_object⟩
    · obtain ⟨o, object⟩ := (graph.alive h).mp listed
      exact ⟨o, keep object⟩
  case refine_2 =>
    rintro ⟨o, object⟩
    rcases split object with ⟨rfl, -⟩ | ⟨-, object⟩
    · exact .head _
    · exact .tail _ ((graph.alive h).mpr ⟨o, object⟩)
  case refine_3 =>
    intro h o object unmerged
    rcases split object with ⟨-, rfl⟩ | ⟨-, object⟩
    · rfl
    · exact graph.unmerged h o object unmerged
  case refine_4 =>
    intro p o object merged
    rcases split object with ⟨-, rfl⟩ | ⟨-, object⟩
    · cases merged
    obtain ⟨members, chain, nodup, group⟩ := graph.chain p o object merged
    refine ⟨members, chain.congr fun x _ a object => ⟨a, keep object, rfl⟩, nodup, fun h => ?_⟩
    rw [group]
    refine and_congr_right fun _ => ⟨fun ⟨o', object', merged'⟩ => ⟨o', keep object', merged'⟩, ?_⟩
    rintro ⟨o', object', merged'⟩
    rcases split object' with ⟨-, rfl⟩ | ⟨-, object'⟩
    · cases merged'
    · exact ⟨o', object', merged'⟩
  case refine_5 =>
    intro h o p object merged different
    rcases split object with ⟨-, rfl⟩ | ⟨-, object⟩
    · cases merged
    obtain ⟨⟨o', object', merged'⟩, bare⟩ := graph.member h o p object merged different
    exact ⟨⟨o', keep object', merged'⟩, bare⟩
  case refine_6 =>
    intro pol l link
    obtain ⟨apart, listed1, listed2⟩ := graph.linked pol l link
    exact ⟨apart, .tail _ listed1, .tail _ listed2⟩
  case refine_7 =>
    intro h o object pol
    rw [add_owner free]
    rcases split object with ⟨rfl, rfl⟩ | ⟨-, object⟩
    case inr => exact graph.listed h o object pol
    change 0 = ends np.owner (np.links pol) h
    cases link : np.links pol with
    | none => rfl
    | some l =>
      obtain ⟨-, listed1, listed2⟩ := graph.linked pol l link
      have first := other (graph.owner_mem listed1)
      have second := other (graph.owner_mem listed2)
      simp [ends, first, second]
  case refine_8 =>
    rw [add_owner free]
    exact graph.named

end Add

/-! ## Sessions -/

/-- The entries of the menu of a host that change groups.  "Delete" is in the same menu, and is left
    out here. -/
inductive Choice where
  | merge
  | unmerge
  | setMergePrimary (po : Nat)
deriving DecidableEq, Repr

/-- A page with its selection.  `highlight` is `PAGE_OBJECT_HIGHLIGHT`, `head` is the `plink` of the
    page, and `menu` the menu that is open. -/
structure Session where
  np : NetPage
  ip : Nat → BitVec 32
  highlight : Nat → Bool
  plink : Nat → Option Nat
  head : Option Nat
  menu : Option (List Choice)

namespace Session

/-! ### Highlighting -/

/-- `page_object_highlight_highlight` and `page_object_highlight_unhighlight`. -/
def pageObjectHighlight (on : Bool) (po : Nat) (s : Session) : Except Fault Session := do
  let o ← s.np.object po
  if o.mergePrimary = none ∨ o.mergePrimary = some po then
    return { s with highlight := Function.update s.highlight po on }
  else return s

/-- The loops of `net_page_highlight_all`. -/
def highlightAll (on : Bool) : List Nat → Session → Except Fault Session
  | [], s => .ok s
  | po :: pos, s => do
    let o ← s.np.object po
    if s.highlight po ≠ on ∧ (o.mergePrimary = some po ∨ o.mergePrimary = none) then
      let s ← pageObjectHighlight on po s
      highlightAll on pos s
    else highlightAll on pos s

def netPageHighlightAll (on : Bool) (s : Session) : Except Fault Session :=
  highlightAll on s.np.pageObjects s

/-- The loop of `net_page_event_dispatch` over the hosts, of which `inside` are in the rectangle. -/
def highlightInside (inside : List Nat) : List Nat → Session → Except Fault Session
  | [], s => .ok s
  | po :: pos, s =>
    if s.highlight po = decide (po ∈ inside) then highlightInside inside pos s
    else do
      let s ← pageObjectHighlight (decide (po ∈ inside)) po s
      highlightInside inside pos s

/-! ### The chain of the selected hosts -/

def netPageUnsetPlink (s : Session) : Session := { s with head := none }

/-- A turn of the loop of `net_page_set_plink`. -/
def chainHost (s : Session) (po : Nat) : Session :=
  if s.highlight po then { s with plink := Function.update s.plink po s.head, head := some po }
  else s

def netPageSetPlink (s : Session) : Session :=
  s.np.pageObjects.foldl chainHost s.netPageUnsetPlink

/-- `net_page_count_plink`. -/
def countPlink (s : Session) : Nat → Option Nat → Except Fault Nat
  | _, none => .ok 0
  | 0, some _ => .error .endless
  | turns + 1, some po => do
    let _ ← s.np.object po
    let count ← countPlink s turns (s.plink po)
    return count + 1

/-! ### The menu of a host -/

def groupChoices (fuel po selected : Nat) (s : Session) : Except Fault (List Choice) := do
  let o ← s.np.object selected
  if o.merge = none then return []
  else
    let members ← mergeChain s.np fuel (← s.np.object po).merge
    return .unmerge :: members.map .setMergePrimary

def mergeOptionCallback (fuel po : Nat) (s : Session) : Except Fault (List Choice) := do
  let count ← s.countPlink fuel s.head
  if count = 1 then
    match s.head with
    | some selected => groupChoices fuel po selected s
    | none => return []
  else return [.merge]

def pageObjectShowOptionList (fuel po : Nat) (s : Session) : Except Fault Session := do
  let choices ← mergeOptionCallback fuel po s
  return { s with menu := some choices }

/-! ### The mouse -/

def highlightOnly (po : Nat) (s : Session) : Except Fault Session := do
  let s ← s.netPageHighlightAll false
  pageObjectHighlight true po s

def pressHighlight (control : Bool) (po : Nat) (s : Session) : Except Fault Session :=
  if control then pageObjectHighlight (!s.highlight po) po s
  else if s.highlight po then pageObjectHighlight true po s
  else do
    let s ← highlightOnly po s
    pageObjectHighlight true po s.netPageUnsetPlink

def press (control : Bool) (po : Nat) (s : Session) : Except Fault Session := do
  let s ← pressHighlight control po s
  return s.netPageSetPlink

def pressMenu (fuel : Nat) (control : Bool) (po : Nat) (s : Session) : Except Fault Session :=
  if control then do
    let s ← pageObjectHighlight true po s
    pageObjectShowOptionList fuel po s.netPageSetPlink
  else if s.highlight po then pageObjectShowOptionList fuel po s
  else do
    let s ← highlightOnly po s
    pageObjectShowOptionList fuel po s.netPageSetPlink

def pressPage (s : Session) : Except Fault Session := do
  let s ← s.netPageHighlightAll false
  return s.netPageUnsetPlink

/-- The rectangle is drawn around the hosts `inside`. -/
def band (inside : List Nat) (s : Session) : Except Fault Session := do
  let s ← highlightInside inside s.np.pageObjects s
  return s.netPageSetPlink

def doSelectAll (s : Session) : Except Fault Session := do
  let s ← s.netPageHighlightAll true
  return s.netPageSetPlink

/-! ### The entries of the menu -/

/-- `page_object_merge`, with the flags of the host. -/
def merge (fuel primary secondary : Nat) (s : Session) : Except Fault Session := do
  let np ← pageObjectMerge fuel primary secondary s.np
  return { s with np, highlight := Function.update s.highlight secondary false }

/-- The loop of `net_page_merge_plink`. -/
def mergeLoop (fuel primary : Nat) : Nat → Option Nat → Session → Except Fault Session
  | _, none, s => .ok s
  | 0, some _, _ => .error .endless
  | turns + 1, some secondary, s => do
    let s ← merge fuel primary secondary s
    mergeLoop fuel primary turns (s.plink secondary) s

def mergeSelected (fuel : Nat) (s : Session) : Except Fault Session :=
  match s.head with
  | some primary => mergeLoop fuel primary fuel (s.plink primary) s
  | none => .ok s

def netPageMergePlink (fuel : Nat) (s : Session) : Except Fault Session := do
  let s ← mergeSelected fuel s
  s.netPageUnsetPlink.netPageHighlightAll false

def netPageUnmergePlink (fuel : Nat) : Nat → Option Nat → Session → Except Fault Session
  | _, none, s => .ok s
  | 0, some _, _ => .error .endless
  | turns + 1, some po, s => do
    let np ← pageObjectUnmerge fuel po s.np
    netPageUnmergePlink fuel turns (s.plink po) { s with np }

/-- `page_object_set_merge_primary`, with the flags of the old primary. -/
def setMergePrimary (fuel primary newPrimary : Nat) (s : Session) : Except Fault Session :=
  if primary ∈ s.np.pageObjects ∧ newPrimary ∈ s.np.pageObjects then do
    let o ← s.np.object newPrimary
    if o.mergePrimary = some newPrimary then return s
    else
      let found ← inChain s.np newPrimary fuel (some primary)
      if found then
        let np ← pageObjectUnmerge fuel newPrimary s.np
        merge fuel newPrimary primary { s with np }
      else return s
  else .ok s

def mergeOptionSetMergePrimary (fuel po : Nat) (s : Session) : Except Fault Session :=
  if po ∈ s.np.pageObjects then do
    match (← s.np.object po).mergePrimary with
    | some primary => if primary = po then return s else setMergePrimary fuel primary po s
    | none => return s
  else .ok s

/-! ### The replies of the agent -/

/-- `page_object_get_by_ip`. -/
def getByIp (s : Session) (ip : BitVec 32) : Option Nat := s.np.pageObjects.find? (s.ip · = ip)

/-- `add_host_entry_to_net_page`.  Without such a host, one is made. -/
def addHostEntry (ip : BitVec 32) (addr : Nat) (s : Session) : Session :=
  if (s.getByIp ip).isSome then s
  else
    { s with
      np := s.np.add addr
      ip := Function.update s.ip addr ip
      highlight := Function.update s.highlight addr false
      plink := Function.update s.plink addr none }

def linkReply (ip1 ip2 : BitVec 32) (pol : Nat) (s : Session) : Except Fault Session :=
  match s.getByIp ip1, s.getByIp ip2 with
  | some po1, some po2 => do
    let np ← netPageMapPageObjects po1 po2 pol s.np
    return { s with np }
  | _, _ => .ok s

def handleMapIcmpReply (ip1 ip2 : BitVec 32) (addr1 addr2 pol : Nat) (s : Session) :
    Except Fault Session :=
  if ip1 ≠ ip2 then linkReply ip1 ip2 pol ((s.addHostEntry ip1 addr1).addHostEntry ip2 addr2)
  else .ok s

/-! ## What can happen -/

inductive Event where
  | press (control : Bool) (po : Nat)
  | pressMenu (control : Bool) (po : Nat)
  | pressPage
  | band (inside : List Nat)
  | selectAll
  | choose (choice : Choice)
  | dismiss
  | discoverReply (ip : BitVec 32) (addr : Nat)
  | mapReply (ip1 ip2 : BitVec 32) (addr1 addr2 pol : Nat)
deriving DecidableEq, Repr

def choose (fuel : Nat) (choice : Choice) (s : Session) : Except Fault Session :=
  match choice with
  | .merge => netPageMergePlink fuel s
  | .unmerge => netPageUnmergePlink fuel fuel s.head s
  | .setMergePrimary po => mergeOptionSetMergePrimary fuel po s

/-- No chain is longer than the list of the hosts. -/
def Event.exec (event : Event) (s : Session) : Except Fault Session :=
  let fuel := s.np.pageObjects.length
  match event with
  | .press control po => Session.press control po s
  | .pressMenu control po => Session.pressMenu fuel control po s
  | .pressPage => Session.pressPage s
  | .band inside => Session.band inside s
  | .selectAll => doSelectAll s
  | .choose choice => Session.choose fuel choice { s with menu := none }
  | .dismiss => .ok { s with menu := none }
  | .discoverReply ip addr => .ok (s.addHostEntry ip addr)
  | .mapReply ip1 ip2 addr1 addr2 pol => handleMapIcmpReply ip1 ip2 addr1 addr2 pol s

/-- A host that is drawn is clicked, while no menu is open; an entry is chosen from the open menu.
    The agent may reply at any time, and `malloc` returns blocks that are not in use, or the one of
    the link that has just been destroyed. -/
def Event.Permitted (s : Session) : Event → Prop
  | .press _ po | .pressMenu _ po =>
    s.menu = none ∧ po ∈ s.np.pageObjects ∧ s.np.owner po = po
  | .pressPage | .band _ | .selectAll => s.menu = none
  | .choose choice => choice ∈ s.menu.getD []
  | .dismiss => s.menu.isSome
  | .discoverReply _ addr => s.np.objects addr = none
  | .mapReply ip1 ip2 addr1 addr2 pol =>
    s.np.objects addr1 = none ∧ s.np.objects addr2 = none ∧ addr1 ≠ addr2 ∧
      (s.np.links pol = none ∨ ∃ po1 ∈ s.np.pageObjects, ∃ po2 ∈ s.np.pageObjects,
        s.ip po1 = ip1 ∧ s.ip po2 = ip2 ∧ Joins po1 po2 (s.np.realEnds pol))

def Step (s : Session) (event : Event) (s' : Session) : Prop :=
  event.Permitted s ∧ event.exec s = .ok s'

def empty : Session where
  np := ⟨[], fun _ => none, fun _ => none⟩
  ip _ := 0
  highlight _ := false
  plink _ := none
  head := none
  menu := none

/-! ## The selection -/

variable {s : Session} {pos : List Nat} {po : Nat}

def mark (s : Session) (f : Nat → Bool) : Session := { s with highlight := f }

section Mark

variable (s : Session) (f : Nat → Bool)

@[simp] theorem mark_np : (s.mark f).np = s.np := rfl
@[simp] theorem mark_ip : (s.mark f).ip = s.ip := rfl
@[simp] theorem mark_highlight : (s.mark f).highlight = f := rfl
@[simp] theorem mark_plink : (s.mark f).plink = s.plink := rfl
@[simp] theorem mark_head : (s.mark f).head = s.head := rfl
@[simp] theorem mark_menu : (s.mark f).menu = s.menu := rfl

end Mark

/-- The hosts from `m` on in the chain of the selected hosts. -/
def ChainedFrom (s : Session) (m : Option Nat) (pos : List Nat) : Prop :=
  Seg (fun h => some (s.plink h)) id m pos none

def Chained (s : Session) (pos : List Nat) : Prop := s.ChainedFrom s.head pos

/-- The highlighted hosts, the last of the page first. -/
def chosen (s : Session) : List Nat := (s.np.pageObjects.filter s.highlight).reverse

theorem mem_chosen : po ∈ s.chosen ↔ po ∈ s.np.pageObjects ∧ s.highlight po = true := by
  rw [chosen, List.mem_reverse, List.mem_filter]

structure SameHosts (s s' : Session) : Prop where
  np : s'.np = s.np
  ip : s'.ip = s.ip
  highlight : s'.highlight = s.highlight
  menu : s'.menu = s.menu

theorem chainHosts (pos : List Nat) {xs : List Nat} (nodup : pos.Nodup)
    (fresh : ∀ po ∈ pos, po ∉ xs) (chained : s.Chained xs) :
    SameHosts s (pos.foldl chainHost s) ∧
      (pos.foldl chainHost s).Chained ((pos.filter s.highlight).reverse ++ xs) := by
  induction pos generalizing s xs with
  | nil => exact ⟨⟨rfl, rfl, rfl, rfl⟩, chained⟩
  | cons po pos ih =>
    obtain ⟨apart, nodup⟩ := List.nodup_cons.mp nodup
    obtain ⟨here, rest⟩ := List.forall_mem_cons.mp fresh
    rw [List.foldl_cons]
    by_cases marked : s.highlight po
    case neg =>
      have skip : s.chainHost po = s := if_neg marked
      rw [skip, List.filter_cons_of_neg marked]
      exact ih nodup rest chained
    case pos =>
      have linked : s.chainHost po =
          { s with plink := Function.update s.plink po s.head, head := some po } := if_pos marked
      have front : (s.chainHost po).Chained (po :: xs) := by
        rw [linked]
        refine ⟨rfl, _, rfl, ?_⟩
        change Seg _ id (Function.update s.plink po s.head po) xs none
        rw [Function.update_self]
        refine chained.congr fun x member a allocated => ⟨_, rfl, ?_⟩
        have other : x ≠ po := fun same => here (same ▸ member)
        cases allocated
        exact Function.update_of_ne other _ _
      have apart' : ∀ x ∈ pos, x ∉ po :: xs := by
        intro x member listed
        rcases List.mem_cons.mp listed with rfl | listed
        · exact apart member
        · exact rest x member listed
      obtain ⟨same, chained'⟩ := ih nodup apart' front
      rw [linked] at same chained' ⊢
      refine ⟨⟨same.np, same.ip, same.highlight, same.menu⟩, ?_⟩
      rw [List.filter_cons_of_pos marked, List.reverse_cons, List.append_assoc]
      exact chained'

/-- After `net_page_set_plink` the chain has the highlighted hosts. -/
theorem netPageSetPlink_chained (nodup : s.np.pageObjects.Nodup) :
    SameHosts s s.netPageSetPlink ∧ s.netPageSetPlink.Chained s.chosen := by
  have fresh : ∀ po ∈ s.np.pageObjects, po ∉ [] := fun _ _ => List.not_mem_nil
  obtain ⟨same, chained⟩ :=
    chainHosts (s := s.netPageUnsetPlink) s.np.pageObjects nodup fresh rfl
  rw [List.append_nil] at chained
  exact ⟨⟨same.np, same.ip, same.highlight, same.menu⟩, chained⟩

theorem SameHosts.chosen_eq {s' : Session} (same : SameHosts s s') : s'.chosen = s.chosen := by
  rw [chosen, chosen, same.np, same.highlight]

/-! ### Highlighting -/

section Highlight

variable (graph : s.np.MergeGraph)

include graph

theorem object_listed (listed : po ∈ s.np.pageObjects) :
    ∃ o, s.np.objects po = some o ∧
      (o.mergePrimary = none ∨ o.mergePrimary = some po ↔ s.np.owner po = po) := by
  obtain ⟨o, object⟩ := (graph.alive po).mp listed
  refine ⟨o, object, ?_⟩
  rw [owner_of_object object]
  cases o.mergePrimary with
  | none => exact iff_of_true (.inl rfl) rfl
  | some p => simp

/-- Only a host that is drawn is highlighted, or stops being so. -/
theorem pageObjectHighlight_ok (on : Bool) (listed : po ∈ s.np.pageObjects) :
    pageObjectHighlight on po s = .ok (s.mark fun h =>
      if h = po ∧ s.np.owner h = h then on else s.highlight h) := by
  obtain ⟨o, object, drawn⟩ := object_listed graph listed
  rw [pageObjectHighlight, NetPage.object, object]
  change (if o.mergePrimary = none ∨ o.mergePrimary = some po then Except.ok _ else _) = _
  by_cases own : s.np.owner po = po
  case pos =>
    rw [if_pos (drawn.mpr own)]
    congr 2
    funext h
    by_cases here : h = po
    case pos => rw [here, Function.update_self, if_pos ⟨rfl, own⟩]
    case neg => rw [Function.update_of_ne here, if_neg fun both => here both.1]
  case neg =>
    rw [if_neg (mt drawn.mp own)]
    have same (h : Nat) : (if h = po ∧ s.np.owner h = h then on else s.highlight h) =
        s.highlight h := if_neg (by
      rintro ⟨rfl, self⟩
      exact own self)
    simp only [same]
    rfl

theorem highlightAll_ok (on : Bool) (listed : ∀ po ∈ pos, po ∈ s.np.pageObjects) :
    highlightAll on pos s = .ok (s.mark fun h =>
      if h ∈ pos ∧ s.np.owner h = h then on else s.highlight h) := by
  induction pos generalizing s with
  | nil => simp [highlightAll, mark]
  | cons po pos ih =>
    obtain ⟨here, rest⟩ := List.forall_mem_cons.mp listed
    obtain ⟨o, object, drawn⟩ := object_listed graph here
    rw [highlightAll, NetPage.object, object]
    change (if s.highlight po ≠ on ∧ (o.mergePrimary = some po ∨ o.mergePrimary = none) then _
      else _) = _
    by_cases change_ : s.highlight po ≠ on ∧ (o.mergePrimary = some po ∨ o.mergePrimary = none)
    case pos =>
      rw [if_pos change_, pageObjectHighlight_ok graph on here]
      let s₁ := s.mark fun h => if h = po ∧ s.np.owner h = h then on else s.highlight h
      refine Eq.trans (ih (s := s₁) graph rest) ?_
      change Except.ok (s.mark _) = _
      congr 2
      funext h
      by_cases same : h = po
      case pos =>
        have own := drawn.mp change_.2.symm
        simp [s₁, same, own]
      case neg => simp [s₁, same]
    case neg =>
      rw [if_neg change_]
      refine (ih graph rest).trans ?_
      congr 2
      funext h
      by_cases same : h = po
      case neg => simp [same]
      case pos =>
        rw [same]
        by_cases own : s.np.owner po = po
        case neg => simp [own]
        case pos =>
          have already : s.highlight po = on := by
            by_contra other
            exact change_ ⟨other, (drawn.mpr own).symm⟩
          simp [own, already]

theorem highlightInside_ok (inside : List Nat) (listed : ∀ po ∈ pos, po ∈ s.np.pageObjects) :
    highlightInside inside pos s = .ok (s.mark fun h =>
      if h ∈ pos ∧ s.np.owner h = h then decide (h ∈ inside) else s.highlight h) := by
  induction pos generalizing s with
  | nil => simp [highlightInside, mark]
  | cons po pos ih =>
    obtain ⟨here, rest⟩ := List.forall_mem_cons.mp listed
    rw [highlightInside]
    by_cases already : s.highlight po = decide (po ∈ inside)
    case pos =>
      rw [if_pos already, ih graph rest]
      congr 2
      funext h
      by_cases same : h = po
      case neg => simp [same]
      case pos =>
        rw [same, already]
        simp
    case neg =>
      rw [if_neg already, pageObjectHighlight_ok graph _ here]
      let s₁ := s.mark fun h =>
        if h = po ∧ s.np.owner h = h then decide (po ∈ inside) else s.highlight h
      refine Eq.trans (ih (s := s₁) graph rest) ?_
      change Except.ok (s.mark _) = _
      congr 2
      funext h
      by_cases same : h = po
      case neg => simp [s₁, same]
      case pos =>
        rw [same]
        by_cases own : s.np.owner po = po
        · simp [s₁, own]
        · simp [s₁, own]

end Highlight

end Session

end Cheops.Canvas
