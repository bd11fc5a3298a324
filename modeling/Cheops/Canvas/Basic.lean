import Cheops.Lib.Segment

/-! # Hosts and links on a page (`gui-canvas.c`)

A page has hosts, some of them merged into groups, and links between hosts.  Hosts and links are
records in memory that point to each other; pointers are addresses, and an address where nothing
is allocated has been freed.  A function that reads or frees there ends in `Fault.freed`.

A group is drawn as its primary, whose `links` are those of the whole group.  Drawing is left out,
but for the records that it reads.
-/

namespace Cheops.Canvas

open Cheops.Lib

/-! ## Pages -/

/-- How a call can fail: it uses what has been freed, or follows a chain longer than `fuel`. -/
inductive Fault where
  | freed
  | endless
deriving DecidableEq, Repr

/-- `struct _page_object`.  `links` is the data of its `GList`. -/
structure PageObject where
  merge : Option Nat
  mergePrimary : Option Nat
  links : List Nat
deriving DecidableEq, Repr

/-- `struct _page_object_link`. -/
structure PageObjectLink where
  po1 : Nat
  po2 : Nat
  merge1 : Option Nat
  merge2 : Option Nat
deriving DecidableEq, Repr

def PageObjectLink.end1 (pol : PageObjectLink) : Nat := pol.merge1.getD pol.po1
def PageObjectLink.end2 (pol : PageObjectLink) : Nat := pol.merge2.getD pol.po2

/-- `net_page`: the list of its hosts, and the hosts and links that are allocated. -/
@[ext] structure NetPage where
  pageObjects : List Nat
  objects : Nat → Option PageObject
  links : Nat → Option PageObjectLink

def NetPage.object (np : NetPage) (po : Nat) : Except Fault PageObject :=
  match np.objects po with
  | some o => .ok o
  | none => .error .freed

def NetPage.link (np : NetPage) (pol : Nat) : Except Fault PageObjectLink :=
  match np.links pol with
  | some l => .ok l
  | none => .error .freed

def NetPage.set (np : NetPage) (po : Nat) (o : PageObject) : NetPage :=
  { np with objects := Function.update np.objects po (some o) }

def NetPage.modify (np : NetPage) (po : Nat) (f : PageObject → PageObject) :
    Except Fault NetPage := do
  let o ← np.object po
  return np.set po (f o)

/-- `for(po = p; po; po = next)`, where `next` is read before the body runs. -/
def forMerged (body : Nat → NetPage → Except Fault NetPage) :
    Nat → Option Nat → NetPage → Except Fault NetPage
  | _, none, np => .ok np
  | 0, some _, _ => .error .endless
  | fuel + 1, some po, np => do
    let next := (← np.object po).merge
    let np ← body po np
    forMerged body fuel next np

/-! ## Links -/

/-- `pol` is taken out of the list of the host at one of its ends, unless that is `po`. -/
def unlist (pol : Nat) (owner : Nat) (po : Option Nat) (np : NetPage) : Except Fault NetPage :=
  if po = some owner then .ok np
  else np.modify owner fun o => { o with links := o.links.erase pol }

def pageObjectLinkDestroy (pol : Nat) (po : Option Nat) (np : NetPage) : Except Fault NetPage := do
  let l ← np.link pol
  let np ← unlist pol l.end1 po np
  let np ← unlist pol l.end2 po np
  return { np with links := Function.update np.links pol none }

/-- `g_list_foreach(links, page_object_link_destroy, po)`. -/
def destroyLinks (po : Nat) : List Nat → NetPage → Except Fault NetPage
  | [], np => .ok np
  | pol :: pols, np => do
    let np ← pageObjectLinkDestroy pol (some po) np
    destroyLinks po pols np

/-- `page_object_links_move(list, NULL)`, by what it reads. -/
def pageObjectLinksMove (np : NetPage) : List Nat → Except Fault Unit
  | [] => .ok ()
  | pol :: pols => do
    let l ← np.link pol
    let _ ← np.object l.end1
    let _ ← np.object l.end2
    pageObjectLinksMove np pols

/-! ## `page_object_unmerge` -/

/-- The loop over `p->links` that gives `po` its links back, from position `current` on.  The
    result is what becomes of the links, of `p->links` and of `po->links`. -/
def unmergeLinks (po : Nat) (links : Nat → Option PageObjectLink) (pLinks poLinks : List Nat)
    (current : Nat) : Except Fault ((Nat → Option PageObjectLink) × List Nat × List Nat) :=
  if h : current < pLinks.length then
    let pol := pLinks[current]
    if pol ∈ poLinks then unmergeLinks po links pLinks poLinks (current + 1)
    else
      match links pol with
      | none => .error .freed
      | some l =>
        if l.po1 = po then
          unmergeLinks po (Function.update links pol (some { l with merge1 := none }))
            (pLinks.erase pol) (poLinks ++ [pol]) 0
        else if l.po2 = po then
          unmergeLinks po (Function.update links pol (some { l with merge2 := none }))
            (pLinks.erase pol) (poLinks ++ [pol]) 0
        else unmergeLinks po links pLinks poLinks (current + 1)
  else .ok (links, pLinks, poLinks)
termination_by (pLinks.length, pLinks.length - current)
decreasing_by
  · exact Prod.Lex.right _ (by omega)
  · apply Prod.Lex.left
    rw [List.length_erase_of_mem (List.getElem_mem h)]
    omega
  · apply Prod.Lex.left
    rw [List.length_erase_of_mem (List.getElem_mem h)]
    omega
  · exact Prod.Lex.right _ (by omega)

/-- The same loop, in memory. -/
def moveLinks (p po : Nat) (np : NetPage) : Except Fault NetPage := do
  let primary ← np.object p
  let o ← np.object po
  let (links, pLinks, poLinks) ← unmergeLinks po np.links primary.links o.links 0
  return ({ np with links }.set p { primary with links := pLinks }).set po
    { o with links := poLinks }

/-- The loop that takes `po` out of the chain of `p`, from `next` on. -/
def unchain (p po : Nat) : Nat → Option Nat → Option Nat → NetPage → Except Fault NetPage
  | _, _, none, np => .ok np
  | 0, _, some _, _ => .error .endless
  | fuel + 1, prev, some next, np => do
    let np ←
      if next = po then do
        let merge := (← np.object po).merge
        np.modify (prev.getD p) fun o => { o with merge }
      else pure np
    unchain p po fuel (some next) (← np.object next).merge np

def unmergeMember (p po : Nat) (np : NetPage) : Except Fault NetPage := do
  let np ← np.modify po fun o => { o with merge := none, mergePrimary := none }
  let np ← moveLinks p po np
  pageObjectLinksMove np (← np.object po).links
  return np

def pageObjectUnmerge (fuel p : Nat) (np : NetPage) : Except Fault NetPage := do
  let o ← np.object p
  if o.mergePrimary = some p then
    let np ← forMerged (unmergeMember p) fuel o.merge np
    np.modify p fun o => { o with mergePrimary := none, merge := none }
  else
    match o.mergePrimary with
    | none => return np
    | some primary =>
      let np ← moveLinks primary p np
      let np ← unchain primary p fuel none (← np.object primary).merge np
      let np ← np.modify primary fun o =>
        { o with mergePrimary := if o.merge = none then none else o.mergePrimary }
      let np ← np.modify p fun o => { o with mergePrimary := none, merge := none }
      pageObjectLinksMove np (← np.object p).links
      return np

/-! ## Deletion -/

/-- The second loop of `page_object_delete`. -/
def freePageObject (po : Nat) (np : NetPage) : Except Fault NetPage :=
  if po ∈ np.pageObjects then do
    let np ← destroyLinks po (← np.object po).links np
    return { np with
      pageObjects := np.pageObjects.erase po
      objects := Function.update np.objects po none }
  else .ok np

/-- `page_object_delete`.  `yes` is the answer to "Delete all Merged Hosts?". -/
def pageObjectDelete : Nat → Bool → Bool → Nat → NetPage → Except Fault NetPage
  | 0, _, _, _, _ => .error .endless
  | fuel + 1, force, yes, po, np =>
    if po ∈ np.pageObjects then do
      let o ← np.object po
      let np ←
        if o.merge = none then pure np
        else if o.mergePrimary = some po then
          if force || yes then
            forMerged (fun temp np => do
              let np ← np.modify temp fun o => { o with merge := none }
              pageObjectDelete fuel force yes temp np) fuel o.merge np
          else forMerged (pageObjectUnmerge fuel) fuel o.merge np
        else pageObjectUnmerge fuel po np
      freePageObject po np
    else freePageObject po np

/-- The loop of `net_page_unmap_all`. -/
def unmapAll : List Nat → NetPage → Except Fault NetPage
  | [], np => .ok np
  | po :: pos, np => do
    let np ← destroyLinks po (← np.object po).links np
    let np ← np.modify po fun o => { o with links := [] }
    unmapAll pos np

def netPageUnmapAll (np : NetPage) : Except Fault NetPage := unmapAll np.pageObjects np

end Cheops.Canvas
