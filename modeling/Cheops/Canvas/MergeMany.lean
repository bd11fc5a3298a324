import Cheops.Canvas.Graph

/-! # Merging many hosts

Hosts are merged one after the other, as they have been selected or as a file says.  A host that has
been merged is a member, and so must not be merged again: then what each host belongs to in the end
can be told from the list of the calls (`mergeOwn`).
-/

namespace Cheops.Canvas

open Cheops.Lib

/-! ## The hosts of a group -/

/-- `for(p = po; p; p = p->merge)`. -/
def mergeChain (np : NetPage) : Nat → Option Nat → Except Fault (List Nat)
  | _, none => .ok []
  | 0, some _ => .error .endless
  | fuel + 1, some p => do
    let rest ← mergeChain np fuel (← np.object p).merge
    return p :: rest

variable {np : NetPage} {s : Shape} {fuel : Nat} {hosts : List Nat}
  {links : Nat → Option (Nat × Nat)} {own target : Nat → Nat} {calls : List (Nat × Nat)}
  {call : Nat × Nat} {h : Nat}

theorem mergeChain_eq {m : Option Nat} {xs : List Nat}
    (seg : Seg np.objects PageObject.merge m xs none) (enough : xs.length ≤ fuel) :
    mergeChain np fuel m = .ok xs := by
  induction xs generalizing fuel m with
  | nil =>
    obtain rfl : m = none := seg
    rw [mergeChain]
  | cons x xs ih =>
    obtain ⟨rfl, o, object, rest⟩ := seg
    cases fuel with
    | zero => exact absurd enough (Nat.not_succ_le_zero _)
    | succ fuel =>
      rw [mergeChain, NetPage.object, object]
      change (mergeChain np fuel o.merge >>= _) = _
      rw [ih rest (Nat.le_of_succ_le_succ enough)]
      rfl

/-! ## Merging -/

def mergeOwn (own : Nat → Nat) (calls : List (Nat × Nat)) : Nat → Nat :=
  calls.foldl (fun own call h => if own h = call.2 then call.1 else own h) own

structure Merging (hosts : List Nat) (links : Nat → Option (Nat × Nat)) (target : Nat → Nat)
    (calls : List (Nat × Nat)) (np : NetPage) (s : Shape) : Prop where
  formed : Formed np s
  pageObjects : np.pageObjects = hosts
  realEnds : np.realEnds = links
  target : mergeOwn s.own calls = target
  listed : ∀ call ∈ calls, call.1 ∈ hosts ∧ call.2 ∈ hosts ∧ call.1 ≠ call.2
  own : ∀ call ∈ calls, s.own call.1 = call.1 ∧ s.own call.2 = call.2
  /-- A host that has been merged is in no other call. -/
  apart : calls.Pairwise fun call later => call.2 ≠ later.1 ∧ call.2 ≠ later.2

theorem Merging.step (merging : Merging hosts links target (call :: calls) np s)
    (enough : hosts.length ≤ fuel) :
    ∃ np' s', pageObjectMerge fuel call.1 call.2 np = .ok np' ∧
      Merging hosts links target calls np' s' := by
  obtain ⟨⟨listed, listedq, other⟩, later⟩ := List.forall_mem_cons.mp merging.listed
  obtain ⟨⟨own, ownq⟩, laterOwn⟩ := List.forall_mem_cons.mp merging.own
  obtain ⟨apart, laterApart⟩ := List.pairwise_cons.mp merging.apart
  have pageObjects := merging.pageObjects
  obtain ⟨np', s', run, formed', pageObjects', realEnds', own'⟩ := merging.formed.merge
    (pageObjects ▸ listed) (pageObjects ▸ listedq) own ownq other (pageObjects ▸ enough)
  refine ⟨np', s', run, formed', pageObjects'.trans pageObjects, ?_, ?_, later, ?_, laterApart⟩
  · rw [realEnds', merging.realEnds]
  · rw [← merging.target, mergeOwn, mergeOwn, List.foldl_cons]
    congr 1
    funext h
    exact own' h
  · intro call' member
    obtain ⟨first, second⟩ := laterOwn call' member
    obtain ⟨notFirst, notSecond⟩ := apart call' member
    rw [own', own', first, second, if_neg notFirst.symm, if_neg notSecond.symm]
    exact ⟨rfl, rfl⟩

theorem mergeOwn_other (other : ∀ call ∈ calls, own h ≠ call.2) :
    mergeOwn own calls h = own h := by
  induction calls generalizing own with
  | nil => rfl
  | cons call calls ih =>
    obtain ⟨first, rest⟩ := List.forall_mem_cons.mp other
    rw [mergeOwn, List.foldl_cons, ← mergeOwn, ih]
    · rw [if_neg first]
    · rw [if_neg first]
      exact rest

theorem mergeOwn_merged (member : call ∈ calls) (self : own call.2 = call.2)
    (apart : calls.Pairwise fun call later => call.2 ≠ later.1 ∧ call.2 ≠ later.2)
    (primaries : ∀ a ∈ calls, ∀ b ∈ calls, a.1 ≠ b.2) : mergeOwn own calls call.2 = call.1 := by
  induction calls generalizing own with
  | nil => cases member
  | cons first calls ih =>
    obtain ⟨different, apart⟩ := List.pairwise_cons.mp apart
    rw [mergeOwn, List.foldl_cons, ← mergeOwn]
    by_cases later : call ∈ calls
    case pos =>
      refine ih later ?_ apart fun a member b member' =>
        primaries a (.tail _ member) b (.tail _ member')
      rw [self, if_neg (different call later).2.symm]
    case neg =>
      obtain rfl : call = first := (List.mem_cons.mp member).resolve_right later
      have here : (if own call.2 = call.2 then call.1 else own call.2) = call.1 := if_pos self
      rw [mergeOwn_other, here]
      intro b member'
      rw [here]
      exact primaries call (.head _) b (.tail _ member')

/-- Hosts are merged with one that is not among them. -/
theorem mergeOwn_into {p : Nat} {qs : List Nat} (fresh : p ∉ qs) :
    mergeOwn own (qs.map (p, ·)) h = if own h ∈ qs then p else own h := by
  induction qs generalizing own with
  | nil => rfl
  | cons q qs ih =>
    rw [List.map_cons, mergeOwn, List.foldl_cons, ← mergeOwn, ih fun later => fresh (.tail _ later)]
    by_cases here : own h = q
    case pos =>
      have later : p ∉ qs := fun later => fresh (.tail _ later)
      simp [here, later]
    case neg => simp [here]

end Cheops.Canvas
