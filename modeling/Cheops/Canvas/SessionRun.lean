import Cheops.Canvas.Session

/-! # What a session keeps

The chain of the selected hosts is made again whenever the highlighting changes, with one exception:
after the primary of a group has been changed the old one is still selected, but not highlighted any
more.  A menu is never opened then without selecting anew, so the hosts that a menu is about are the
highlighted ones.  They are drawn, and hence no members.
-/

namespace Cheops.Canvas.Session

open Cheops.Lib

variable {s s' : Session} {pos : List Nat} {po p : Nat} {fuel : Nat}

/-! ## Highlighted hosts -/

structure Drawn (s : Session) : Prop where
  graph : s.np.MergeGraph
  ips : (s.np.pageObjects.map s.ip).Nodup
  drawn : ∀ h, s.highlight h = true → h ∈ s.np.pageObjects ∧ s.np.owner h = h

theorem Drawn.mark {f : Nat → Bool} (drawn : s.Drawn)
    (only : ∀ h, f h = true → h ∈ s.np.pageObjects ∧ s.np.owner h = h) : (s.mark f).Drawn where
  graph := drawn.graph
  ips := drawn.ips
  drawn := only

theorem Drawn.of_same (drawn : s.Drawn) (same : SameHosts s s') : s'.Drawn where
  graph := same.np ▸ drawn.graph
  ips := by
    rw [same.np, same.ip]
    exact drawn.ips
  drawn := by
    rw [same.np, same.highlight]
    exact drawn.drawn

theorem Drawn.chosen (drawn : s.Drawn) :
    s.chosen.Nodup ∧ ∀ h ∈ s.chosen, h ∈ s.np.pageObjects ∧ s.np.owner h = h := by
  refine ⟨List.nodup_reverse.mpr (drawn.graph.nodup.filter _), fun h member => ?_⟩
  exact drawn.drawn h (mem_chosen.mp member).2

theorem Drawn.highlight (drawn : s.Drawn) (on : Bool) (listed : po ∈ s.np.pageObjects) :
    ∃ f, pageObjectHighlight on po s = .ok (s.mark f) ∧ (s.mark f).Drawn ∧
      (s.np.owner po = po → f po = on) := by
  refine ⟨_, pageObjectHighlight_ok drawn.graph on listed, drawn.mark fun h marked => ?_, ?_⟩
  · split at marked
    next here => exact ⟨here.1 ▸ listed, here.2⟩
    next => exact drawn.drawn h marked
  · intro own
    exact if_pos ⟨rfl, own⟩

theorem Drawn.all (drawn : s.Drawn) (on : Bool) :
    ∃ f, netPageHighlightAll on s = .ok (s.mark f) ∧ (s.mark f).Drawn ∧
      (on = false → ∀ h, f h = false) := by
  refine ⟨_, highlightAll_ok drawn.graph on fun _ => id, drawn.mark fun h marked => ?_, ?_⟩
  · split at marked
    next here => exact here
    next => exact drawn.drawn h marked
  · rintro rfl h
    split
    next => rfl
    next other => exact Bool.eq_false_iff.mpr (mt (drawn.drawn h) other)

theorem Drawn.inside (drawn : s.Drawn) (inside : List Nat) :
    ∃ f, highlightInside inside s.np.pageObjects s = .ok (s.mark f) ∧ (s.mark f).Drawn := by
  refine ⟨_, highlightInside_ok drawn.graph inside fun _ => id, drawn.mark fun h marked => ?_⟩
  split at marked
  next here => exact here
  next => exact drawn.drawn h marked

theorem Drawn.only (drawn : s.Drawn) (listed : po ∈ s.np.pageObjects) (own : s.np.owner po = po) :
    ∃ f, highlightOnly po s = .ok (s.mark f) ∧ (s.mark f).Drawn ∧ f po = true := by
  obtain ⟨f, all, drawn₁, -⟩ := drawn.all false
  obtain ⟨g, one, drawn₂, marked⟩ := drawn₁.highlight true listed
  refine ⟨g, ?_, drawn₂, marked own⟩
  rw [highlightOnly, all]
  exact one

/-! ## The invariant -/

/-- What holds while the program waits for the user. -/
structure Inv (s : Session) : Prop extends s.Drawn where
  /-- The highlighted hosts are selected, or nothing is highlighted and one host is. -/
  chained : ∃ pos, s.Chained pos ∧ (∀ h ∈ pos, h ∈ s.np.pageObjects) ∧
    (pos = s.chosen ∨ s.chosen = [] ∧ pos.length ≤ 1)
  menu : ∀ choices, s.menu = some choices → s.Chained s.chosen ∧
    (.merge ∈ choices → 2 ≤ s.chosen.length) ∧
    ∀ po, .setMergePrimary po ∈ choices → po ∈ s.np.pageObjects ∧ s.chosen = [s.np.owner po]

theorem Drawn.inv (drawn : s.Drawn) (chained : s.Chained s.chosen) (closed : s.menu = none) :
    s.Inv where
  toDrawn := drawn
  chained := ⟨s.chosen, chained, fun h member => (drawn.chosen.2 h member).1, .inl rfl⟩
  menu _ opened := absurd (closed.symm.trans opened) nofun

theorem chosen_nil (off : ∀ h, s.highlight h = false) : s.chosen = [] := by
  rw [chosen, List.filter_eq_nil_iff.mpr fun h _ => Bool.eq_false_iff.mp (off h), List.reverse_nil]

/-- The selection is made again. -/
theorem Drawn.select (drawn : s.Drawn) :
    s.netPageSetPlink.Drawn ∧ SameHosts s s.netPageSetPlink ∧
      s.netPageSetPlink.Chained s.netPageSetPlink.chosen := by
  obtain ⟨same, chained⟩ := netPageSetPlink_chained drawn.graph.nodup
  exact ⟨drawn.of_same same, same, same.chosen_eq ▸ chained⟩

theorem Drawn.select_inv (drawn : s.Drawn) (closed : s.menu = none) : s.netPageSetPlink.Inv := by
  obtain ⟨drawn', same, chained⟩ := drawn.select
  exact drawn'.inv chained (same.menu.trans closed)

/-! ## Opening a menu -/

theorem countPlink_ok {m : Option Nat} {turns : Nat} (chained : s.ChainedFrom m pos)
    (alive : ∀ h ∈ pos, ∃ o, s.np.objects h = some o) (enough : pos.length ≤ turns) :
    s.countPlink turns m = .ok pos.length := by
  induction pos generalizing turns m with
  | nil =>
    obtain rfl : m = none := chained
    rw [countPlink]
    rfl
  | cons po pos ih =>
    obtain ⟨rfl, _, next, rest⟩ := chained
    cases next
    obtain ⟨⟨o, object⟩, later⟩ := List.forall_mem_cons.mp alive
    cases turns with
    | zero => exact absurd enough (Nat.not_succ_le_zero _)
    | succ turns =>
      have counted : s.countPlink turns (s.plink po) = .ok pos.length :=
        ih rest later (Nat.le_of_succ_le_succ enough)
      rw [countPlink, NetPage.object, object, counted]
      rfl

theorem groupChoices_ok (graph : s.np.MergeGraph) (listed : po ∈ s.np.pageObjects)
    (own : s.np.owner po = po) (enough : s.np.pageObjects.length ≤ fuel) :
    ∃ choices, groupChoices fuel po po s = .ok choices ∧ .merge ∉ choices ∧
      ∀ h, .setMergePrimary h ∈ choices → h ∈ s.np.pageObjects ∧ s.np.owner h = po := by
  obtain ⟨o, object⟩ := (graph.alive po).mp listed
  obtain ⟨members, group⟩ := graph.members po
  obtain ⟨chain, nodup, grouped⟩ := group o object own
  have member (h : Nat) (here : h ∈ members) : h ∈ s.np.pageObjects ∧ s.np.owner h = po := by
    obtain ⟨-, o', object', merged⟩ := (grouped h).mp here
    refine ⟨(graph.alive h).mpr ⟨o', object'⟩, ?_⟩
    rw [owner_of_object object', merged, Option.getD_some]
  have short : members.length ≤ fuel :=
    (List.subperm_of_subset nodup fun h here => (member h here).1).length_le.trans enough
  rw [groupChoices, NetPage.object, object]
  by_cases alone : o.merge = none
  case pos => exact ⟨[], if_pos alone, List.not_mem_nil, by simp⟩
  case neg =>
    refine ⟨.unmerge :: members.map .setMergePrimary, ?_, by simp, fun h chosen => ?_⟩
    · change (if o.merge = none then _ else _) = _
      rw [if_neg alone]
      change (mergeChain s.np fuel o.merge >>= _) = _
      rw [mergeChain_eq chain short]
      rfl
    · simp only [List.mem_cons, reduceCtorEq, List.mem_map, false_or] at chosen
      obtain ⟨x, here, same⟩ := chosen
      cases same
      exact member h here

/-- The host that has been clicked is highlighted, and the selection is up to date. -/
theorem Drawn.show (drawn : s.Drawn) (chained : s.Chained s.chosen) (marked : s.highlight po = true)
    (enough : s.np.pageObjects.length ≤ fuel) :
    ∃ s', pageObjectShowOptionList fuel po s = .ok s' ∧ s'.Inv := by
  obtain ⟨nodup, each⟩ := drawn.chosen
  obtain ⟨listed, own⟩ := drawn.drawn po marked
  have member : po ∈ s.chosen := mem_chosen.mpr ⟨listed, marked⟩
  have short : s.chosen.length ≤ fuel :=
    (List.subperm_of_subset nodup fun h here => (each h here).1).length_le.trans enough
  have counted := countPlink_ok chained
    (fun h here => (drawn.graph.alive h).mp (each h here).1) short
  have opened : ∃ choices, mergeOptionCallback fuel po s = .ok choices ∧
      (.merge ∈ choices → 2 ≤ s.chosen.length) ∧
      ∀ h, .setMergePrimary h ∈ choices → h ∈ s.np.pageObjects ∧ s.chosen = [s.np.owner h] := by
    rw [mergeOptionCallback, counted]
    change ∃ choices, (if s.chosen.length = 1 then _ else Except.ok [Choice.merge]) = _ ∧ _
    by_cases one : s.chosen.length = 1
    case neg =>
      have some := List.length_pos_of_mem member
      exact ⟨[.merge], if_neg one, fun _ => by omega, by simp⟩
    case pos =>
      obtain ⟨x, alone⟩ := List.length_eq_one_iff.mp one
      obtain rfl : po = x := List.mem_singleton.mp (alone ▸ member)
      rw [alone] at chained
      rw [if_pos one, show s.head = some po from chained.1]
      obtain ⟨choices, run, single, members⟩ := groupChoices_ok drawn.graph listed own enough
      refine ⟨choices, run, fun several => absurd several single, fun h choice => ?_⟩
      obtain ⟨listed', owned⟩ := members h choice
      exact ⟨listed', owned.symm ▸ alone⟩
  obtain ⟨choices, run, members⟩ := opened
  refine ⟨{ s with menu := some choices }, ?_, ⟨drawn.graph, drawn.ips, drawn.drawn⟩,
    ⟨s.chosen, chained, fun h here => (each h here).1, .inl rfl⟩, ?_⟩
  · rw [pageObjectShowOptionList, run]
    rfl
  · intro choices' same
    cases same
    exact ⟨chained, members⟩

/-! ## Merging the selected hosts -/

variable {hosts : List Nat} {links : Nat → Option (Nat × Nat)} {target : Nat → Nat} {sh : Shape}

/-- The hosts of the chain are merged with `p`, and no longer highlighted. -/
theorem mergeLoop_ok {m : Option Nat} {turns : Nat} (chained : s.ChainedFrom m pos)
    (merging : Merging hosts links target (pos.map (p, ·)) s.np sh)
    (short : pos.length ≤ turns) (enough : hosts.length ≤ fuel) :
    ∃ s' sh', mergeLoop fuel p turns m s = .ok s' ∧
      Merging hosts links target [] s'.np sh' ∧ s'.ip = s.ip ∧ s'.menu = s.menu ∧
      ∀ h, s'.highlight h = true ↔ s.highlight h = true ∧ h ∉ pos := by
  induction pos generalizing turns m s sh with
  | nil =>
    obtain rfl : m = none := chained
    exact ⟨s, sh, by rw [mergeLoop], merging, rfl, rfl, by simp⟩
  | cons q qs ih =>
    obtain ⟨rfl, _, next, rest⟩ := chained
    cases next
    obtain ⟨np₁, sh₁, run₁, merging₁⟩ := Merging.step merging enough
    let s₁ : Session := { s with np := np₁, highlight := Function.update s.highlight q false }
    have first : merge fuel p q s = .ok s₁ := by
      rw [merge, run₁]
      rfl
    cases turns with
    | zero => exact absurd short (Nat.not_succ_le_zero _)
    | succ turns =>
      obtain ⟨s', sh', run, merging', ip, menu, marked⟩ :=
        ih (s := s₁) rest merging₁ (Nat.le_of_succ_le_succ short)
      refine ⟨s', sh', ?_, merging', ip, menu, fun h => (marked h).trans ?_⟩
      · rw [mergeLoop, first]
        exact run
      · by_cases here : h = q <;> simp [s₁, here]

/-- The selected hosts are in the group of the first, with the hosts that were in their groups. -/
theorem Inv.merge_joins (inv : s.Inv) (chained : s.Chained (p :: pos))
    (selected : p :: pos = s.chosen) (closed : s.menu = none)
    (enough : s.np.pageObjects.length ≤ fuel) :
    ∃ s', netPageMergePlink fuel s = .ok s' ∧ s'.Inv ∧
      s'.np.pageObjects = s.np.pageObjects ∧ s'.np.realEnds = s.np.realEnds ∧ s'.Chained [] ∧
      (∀ h, s'.highlight h = false) ∧
      ∀ h ∈ s.np.pageObjects, s'.np.owner h = if s.np.owner h ∈ pos then p else s.np.owner h := by
  obtain ⟨sh, formed⟩ := inv.graph.formed
  obtain ⟨nodup, each⟩ := inv.chosen
  rw [← selected] at nodup each
  obtain ⟨fresh, nodup⟩ := List.nodup_cons.mp nodup
  obtain ⟨⟨listed, own⟩, others⟩ := List.forall_mem_cons.mp each
  have owner {h : Nat} (here : h ∈ s.np.pageObjects) : s.np.owner h = sh.own h :=
    formed.has.owner_eq here
  have merging : Merging s.np.pageObjects s.np.realEnds (mergeOwn sh.own (pos.map (p, ·)))
      (pos.map (p, ·)) s.np sh := by
    refine ⟨formed, rfl, rfl, rfl, ?_, ?_, ?_⟩
    · simp only [List.mem_map, forall_exists_index, and_imp, forall_apply_eq_imp_iff₂]
      exact fun q member => ⟨listed, (others q member).1, fun same => fresh (same ▸ member)⟩
    · simp only [List.mem_map, forall_exists_index, and_imp, forall_apply_eq_imp_iff₂]
      intro q member
      obtain ⟨listedq, ownq⟩ := others q member
      rw [← owner listed, ← owner listedq]
      exact ⟨own, ownq⟩
    · rw [List.pairwise_map]
      refine nodup.imp_of_mem fun {q _} member _ apart => ⟨?_, apart⟩
      intro same
      exact fresh ((show q = p from same) ▸ member)
  obtain ⟨head, _, next, rest⟩ := chained
  cases next
  change s.ChainedFrom (s.plink p) pos at rest
  have short : pos.length ≤ fuel :=
    (List.subperm_of_subset nodup fun q member => (others q member).1).length_le.trans enough
  obtain ⟨s₁, sh₁, run, merged, ip, menu, marked⟩ := mergeLoop_ok rest merging short enough
  have pageObjects := merged.pageObjects
  have owner₁ {h : Nat} (here : h ∈ s.np.pageObjects) :
      s₁.np.owner h = if s.np.owner h ∈ pos then p else s.np.owner h := by
    rw [merged.formed.has.owner_eq (pageObjects ▸ here), owner here, ← mergeOwn_into fresh]
    exact congrFun merged.target h
  -- what is still highlighted is in no group that has been merged
  have drawn₁ : s₁.netPageUnsetPlink.Drawn := by
    refine ⟨merged.formed.graph, ?_, fun h highlighted => ?_⟩
    · change (s₁.np.pageObjects.map s₁.ip).Nodup
      rw [pageObjects, ip]
      exact inv.ips
    · obtain ⟨before, apart⟩ := (marked h).mp highlighted
      obtain ⟨here, drawn⟩ := inv.drawn h before
      refine ⟨pageObjects ▸ here, (owner₁ here).trans ?_⟩
      rw [drawn, if_neg apart]
  obtain ⟨f, all, drawn', off⟩ := drawn₁.all false
  refine ⟨s₁.netPageUnsetPlink.mark f, ?_, drawn'.inv ?_ (menu.trans closed), pageObjects,
    merged.realEnds, rfl, off rfl, fun h here => owner₁ here⟩
  · rw [netPageMergePlink, mergeSelected, head]
    change (mergeLoop fuel p fuel (s.plink p) s >>= _) = _
    rw [run]
    exact all
  · rw [chosen_nil (off rfl)]
    rfl

/-! ## The other entries of the menu -/

/-- A host that is drawn is still drawn after groups have been unmerged. -/
theorem netPageUnmergePlink_ok {m : Option Nat} {turns : Nat} (chained : s.ChainedFrom m pos)
    (formed : Formed s.np sh) (listed : ∀ h ∈ pos, h ∈ s.np.pageObjects)
    (short : pos.length ≤ turns) (enough : s.np.pageObjects.length ≤ fuel) :
    ∃ np' sh', netPageUnmergePlink fuel turns m s = .ok { s with np := np' } ∧ Formed np' sh' ∧
      np'.pageObjects = s.np.pageObjects ∧ np'.realEnds = s.np.realEnds ∧
      ∀ h ∈ s.np.pageObjects, sh.own h = h → sh'.own h = h := by
  induction pos generalizing turns m s sh with
  | nil =>
    obtain rfl : m = none := chained
    exact ⟨s.np, sh, by rw [netPageUnmergePlink], formed, rfl, rfl, fun _ _ => id⟩
  | cons po pos ih =>
    obtain ⟨rfl, _, next, rest⟩ := chained
    cases next
    obtain ⟨here, later⟩ := List.forall_mem_cons.mp listed
    obtain ⟨np₁, sh₁, run₁, formed₁, pageObjects₁, realEnds₁, own₁⟩ := formed.unmerge here enough
    cases turns with
    | zero => exact absurd short (Nat.not_succ_le_zero _)
    | succ turns =>
      obtain ⟨np', sh', run, formed', pageObjects, realEnds, own⟩ := ih (s := { s with np := np₁ })
        rest formed₁ (pageObjects₁ ▸ later) (Nat.le_of_succ_le_succ short) (pageObjects₁ ▸ enough)
      refine ⟨np', sh', ?_, formed', pageObjects.trans pageObjects₁, realEnds.trans realEnds₁,
        fun h listed' self => own h (pageObjects₁ ▸ listed') ?_⟩
      · rw [netPageUnmergePlink, run₁]
        exact run
      · rw [own₁ h listed', self, ite_self]

theorem Inv.unmerge (inv : s.Inv) (chained : s.Chained s.chosen) (closed : s.menu = none)
    (enough : s.np.pageObjects.length ≤ fuel) :
    ∃ s', netPageUnmergePlink fuel fuel s.head s = .ok s' ∧ s'.Inv := by
  obtain ⟨sh, formed⟩ := inv.graph.formed
  obtain ⟨nodup, each⟩ := inv.toDrawn.chosen
  have short : s.chosen.length ≤ fuel :=
    (List.subperm_of_subset nodup fun q member => (each q member).1).length_le.trans enough
  obtain ⟨np', sh', run, formed', pageObjects, -, own⟩ := netPageUnmergePlink_ok chained formed
    (fun h member => (each h member).1) short enough
  have drawn' : Drawn { s with np := np' } := by
    refine ⟨formed'.graph, ?_, fun h highlighted => ?_⟩
    · change (np'.pageObjects.map s.ip).Nodup
      rw [pageObjects]
      exact inv.ips
    · obtain ⟨here, self⟩ := inv.drawn h highlighted
      have here' : h ∈ np'.pageObjects := pageObjects ▸ here
      refine ⟨here', ?_⟩
      change np'.owner h = h
      rw [formed'.has.owner_eq here']
      exact own h here (formed.has.owner_eq here ▸ self)
  have same : chosen { s with np := np' } = s.chosen := by
    rw [chosen, chosen, pageObjects]
  exact ⟨_, run, drawn'.inv (same ▸ chained) closed⟩

/-- With the flags of the hosts, `page_object_set_merge_primary` does what it does to the graph. -/
theorem setMergePrimary_eq {q : Nat} {np' : NetPage}
    (run : pageObjectSetMergePrimary fuel p q s.np = .ok np') :
    setMergePrimary fuel p q s = .ok s ∧ np' = s.np ∨
      setMergePrimary fuel p q s =
        .ok { s with np := np', highlight := Function.update s.highlight p false } := by
  unfold pageObjectSetMergePrimary at run
  unfold Session.setMergePrimary
  by_cases listed : p ∈ s.np.pageObjects ∧ q ∈ s.np.pageObjects
  case neg =>
    rw [if_neg listed] at run ⊢
    cases run
    exact .inl ⟨rfl, rfl⟩
  rw [if_pos listed] at run ⊢
  obtain ⟨o, object, run⟩ := bind_ok run
  rw [object]
  by_cases already : o.mergePrimary = some q
  case pos =>
    rw [if_pos already] at run
    cases run
    exact .inl ⟨if_pos already, rfl⟩
  rw [if_neg already] at run
  obtain ⟨found, chain, run⟩ := bind_ok run
  change (if o.mergePrimary = some q then _ else _) = _ ∧ _ ∨
    (if o.mergePrimary = some q then _ else _) = _
  rw [if_neg already, chain]
  cases found with
  | false =>
    cases run
    exact .inl ⟨rfl, rfl⟩
  | true =>
    obtain ⟨np₁, unmerged, run⟩ := bind_ok run
    refine .inr ?_
    change (pageObjectUnmerge fuel q s.np >>= fun np => merge fuel q p { s with np }) = _
    rw [unmerged]
    change (pageObjectMerge fuel q p np₁ >>= _) = _
    rw [run]
    rfl

/-- The old primary stays selected, but is not highlighted any more. -/
theorem Inv.setMergePrimary (inv : s.Inv) {q : Nat} (alone : s.chosen = [s.np.owner q])
    (chained : s.Chained s.chosen) (closed : s.menu = none)
    (enough : s.np.pageObjects.length ≤ fuel) :
    ∃ s', mergeOptionSetMergePrimary fuel q s = .ok s' ∧ s'.Inv := by
  have stays : ∃ s', (.ok s : Except Fault Session) = .ok s' ∧ s'.Inv :=
    ⟨s, rfl, inv.toDrawn.inv chained closed⟩
  unfold mergeOptionSetMergePrimary
  by_cases listed : q ∈ s.np.pageObjects
  case neg => rwa [if_neg listed]
  obtain ⟨o, object⟩ := (inv.graph.alive q).mp listed
  rw [if_pos listed, NetPage.object, object]
  obtain ⟨merge, mergePrimary, links⟩ := o
  cases merged : mergePrimary with
  | none => exact stays
  | some p =>
    have owned : s.np.owner q = p := by
      rw [owner_of_object object]
      exact congrArg (Option.getD · q) merged
    rw [owned] at alone
    by_cases same : p = q
    case pos =>
      change ∃ s', (if p = q then _ else _) = _ ∧ _
      rwa [if_pos same]
    change ∃ s', (if p = q then _ else _) = _ ∧ _
    rw [if_neg same]
    obtain ⟨here, own⟩ := inv.toDrawn.chosen.2 p (alone ▸ List.mem_singleton_self p)
    obtain ⟨sh, formed⟩ := inv.graph.formed
    obtain ⟨np', sh', run, formed', pageObjects, -⟩ := formed.setMergePrimary same own enough
    rcases setMergePrimary_eq run with ⟨kept, -⟩ | changed
    · rwa [kept]
    · have off (h : Nat) : Function.update s.highlight p false h = false := by
        by_cases here : h = p
        · rw [here, Function.update_self]
        · rw [Function.update_of_ne here]
          by_contra marked
          have marked := Bool.eq_true_of_not_eq_false marked
          have member := mem_chosen.mpr ⟨(inv.drawn h marked).1, marked⟩
          rw [alone] at member
          exact here (List.mem_singleton.mp member)
      refine ⟨_, changed, ⟨formed'.graph, ?_, fun h marked => ?_⟩,
        ⟨[p], alone ▸ chained, ?_, .inr ⟨?_, le_rfl⟩⟩, fun _ opened => ?_⟩
      · change (np'.pageObjects.map s.ip).Nodup
        rw [pageObjects]
        exact inv.ips
      · exact absurd ((off h).symm.trans marked) Bool.false_ne_true
      · intro h member
        obtain rfl := List.mem_singleton.mp member
        exact pageObjects ▸ here
      · exact chosen_nil off
      · exact absurd (closed.symm.trans opened) (Option.some_ne_none _).symm

/-! ## The replies -/

theorem getByIp_iff (ips : (s.np.pageObjects.map s.ip).Nodup) {ip : BitVec 32} :
    s.getByIp ip = some po ↔ po ∈ s.np.pageObjects ∧ s.ip po = ip := by
  constructor
  · intro found
    rw [getByIp] at found
    exact ⟨List.mem_of_find?_eq_some found, by simpa using List.find?_some found⟩
  · rintro ⟨listed, same⟩
    have present : (s.getByIp ip).isSome := List.find?_isSome.mpr ⟨po, listed, by simpa using same⟩
    obtain ⟨x, found⟩ := Option.isSome_iff_exists.mp present
    rw [found]
    rw [getByIp] at found
    have other : s.ip x = ip := by simpa using List.find?_some found
    have listed' := List.mem_of_find?_eq_some found
    rw [List.inj_on_of_nodup_map ips listed' listed (other.trans same.symm)]

structure Added (s s' : Session) (ip : BitVec 32) (addr : Nat) : Prop where
  inv : s'.Inv
  here : (s'.getByIp ip).isSome
  still : ∀ a po, s.getByIp a = some po → s'.getByIp a = some po
  links : s'.np.links = s.np.links
  others : ∀ h, h ≠ addr → s'.np.objects h = s.np.objects h

theorem Inv.addHost (inv : s.Inv) {addr : Nat} (ip : BitVec 32) (free : s.np.objects addr = none) :
    Added s (s.addHostEntry ip addr) ip addr := by
  rw [addHostEntry]
  by_cases present : (s.getByIp ip).isSome
  case pos =>
    rw [if_pos present]
    exact ⟨inv, present, fun _ _ => id, rfl, fun _ _ => rfl⟩
  rw [if_neg present]
  have other {h : Nat} (listed : h ∈ s.np.pageObjects) : h ≠ addr := by
    rintro rfl
    obtain ⟨o, object⟩ := (inv.graph.alive h).mp listed
    exact absurd (free.symm.trans object) nofun
  have sameIp {h : Nat} (listed : h ∈ s.np.pageObjects) :
      Function.update s.ip addr ip h = s.ip h := Function.update_of_ne (other listed) _ _
  have off : Function.update s.highlight addr false addr = false := Function.update_self ..
  set s' : Session := { s with
    np := s.np.add addr
    ip := Function.update s.ip addr ip
    highlight := Function.update s.highlight addr false
    plink := Function.update s.plink addr none } with new
  have chosen' : s'.chosen = s.chosen := by
    refine congrArg List.reverse ((List.filter_cons_of_neg (Bool.eq_false_iff.mp off)).trans ?_)
    exact List.filter_congr fun h listed => Function.update_of_ne (other listed) _ _
  have chained' {xs : List Nat} (chained : s.Chained xs) (listed : ∀ h ∈ xs, h ∈ s.np.pageObjects) :
      s'.Chained xs := by
    refine Seg.congr chained fun h member a next => ⟨a, ?_, rfl⟩
    rw [← next]
    exact congrArg some (Function.update_of_ne (other (listed h member)) _ _)
  have ips : (s'.np.pageObjects.map s'.ip).Nodup := by
    change (Function.update s.ip addr ip addr ::
      s.np.pageObjects.map (Function.update s.ip addr ip)).Nodup
    rw [Function.update_self, List.map_congr_left fun h listed => sameIp listed]
    refine List.nodup_cons.mpr ⟨fun member => ?_, inv.ips⟩
    obtain ⟨h, listed, same⟩ := List.mem_map.mp member
    rw [(getByIp_iff inv.ips).mpr ⟨listed, same⟩] at present
    exact present rfl
  refine ⟨⟨⟨inv.graph.add free, ips, fun h marked => ?_⟩, ?_, fun choices opened => ?_⟩, ?_,
    fun a po found => ?_, rfl, fun h different => add_objects different⟩
  · have different : h ≠ addr := fun same => by
      rw [same] at marked
      exact absurd (off.symm.trans marked) Bool.false_ne_true
    have before : s.highlight h = true := (Function.update_of_ne different _ _).symm.trans marked
    obtain ⟨listed, own⟩ := inv.drawn h before
    exact ⟨.tail _ listed, (congrFun (add_owner free) h).trans own⟩
  · obtain ⟨xs, chained, listed, selected⟩ := inv.chained
    rw [chosen']
    exact ⟨xs, chained' chained listed, fun h member => .tail _ (listed h member), selected⟩
  · obtain ⟨chained, several, choice⟩ := inv.menu choices opened
    rw [chosen', show s'.np.owner = s.np.owner from add_owner free]
    refine ⟨chained' chained fun h member => (inv.toDrawn.chosen.2 h member).1, several,
      fun po member => ?_⟩
    exact ⟨.tail _ (choice po member).1, (choice po member).2⟩
  · rw [(getByIp_iff ips).mpr ⟨List.mem_cons_self, Function.update_self ..⟩]
    rfl
  · obtain ⟨listed, same⟩ := (getByIp_iff inv.ips).mp found
    exact (getByIp_iff ips).mpr ⟨.tail _ listed, (sameIp listed).trans same⟩

theorem Inv.link (inv : s.Inv) {po1 po2 pol : Nat} {ip1 ip2 : BitVec 32}
    (first : s.getByIp ip1 = some po1) (second : s.getByIp ip2 = some po2)
    (allocated : s.np.links pol = none ∨ Joins po1 po2 (s.np.realEnds pol)) :
    ∃ s', linkReply ip1 ip2 pol s = .ok s' ∧ s'.Inv := by
  obtain ⟨sh, formed⟩ := inv.graph.formed
  have permitted : (Op.map po1 po2 pol).Permitted s.np := fun _ _ _ => allocated
  obtain ⟨np', run, formed', pageObjects, -⟩ := formed.map permitted
  refine ⟨{ s with np := np' }, ?_, ?_⟩
  · rw [linkReply, first, second]
    change (netPageMapPageObjects po1 po2 pol s.np >>= _) = _
    rw [run]
    rfl
  have owner (h : Nat) (listed : h ∈ s.np.pageObjects) : np'.owner h = s.np.owner h := by
    rw [formed.has.owner_eq listed]
    exact formed'.has.owner_eq (pageObjects ▸ listed)
  have chosen' : chosen { s with np := np' } = s.chosen := by rw [chosen, chosen, pageObjects]
  refine ⟨⟨formed'.graph, ?_, fun h marked => ?_⟩, ?_, fun choices opened => ?_⟩
  · change (np'.pageObjects.map s.ip).Nodup
    rw [pageObjects]
    exact inv.ips
  · obtain ⟨listed, own⟩ := inv.drawn h marked
    exact ⟨pageObjects ▸ listed, (owner h listed).trans own⟩
  · rw [chosen', pageObjects]
    exact inv.chained
  · obtain ⟨chained, several, choice⟩ := inv.menu choices opened
    rw [chosen', pageObjects]
    refine ⟨chained, several, fun po member => ?_⟩
    obtain ⟨listed, alone⟩ := choice po member
    rw [owner po listed]
    exact ⟨listed, alone⟩

theorem Inv.mapReply (inv : s.Inv) {ip1 ip2 : BitVec 32} {addr1 addr2 pol : Nat}
    (permitted : (Event.mapReply ip1 ip2 addr1 addr2 pol).Permitted s) :
    ∃ s', handleMapIcmpReply ip1 ip2 addr1 addr2 pol s = .ok s' ∧ s'.Inv := by
  obtain ⟨free1, free2, apart, allocated⟩ := permitted
  rw [handleMapIcmpReply]
  by_cases different : ip1 ≠ ip2
  case neg => exact ⟨s, if_neg different, inv⟩
  rw [if_pos different]
  have first := inv.addHost ip1 free1
  have second := first.inv.addHost ip2 ((first.others addr2 apart.symm).trans free2)
  obtain ⟨po1, found1⟩ := Option.isSome_iff_exists.mp first.here
  obtain ⟨po2, found2⟩ := Option.isSome_iff_exists.mp second.here
  have found1' := second.still ip1 po1 found1
  have links : ((s.addHostEntry ip1 addr1).addHostEntry ip2 addr2).np.links = s.np.links :=
    second.links.trans first.links
  refine second.inv.link found1' found2 ?_
  rw [NetPage.realEnds, links]
  refine allocated.imp_right ?_
  rintro ⟨a, listed1, b, listed2, ipa, ipb, joins⟩
  have same1 := first.still ip1 a ((getByIp_iff inv.ips).mpr ⟨listed1, ipa⟩)
  have same2 := second.still ip2 b (first.still ip2 b ((getByIp_iff inv.ips).mpr ⟨listed2, ipb⟩))
  cases found1.symm.trans same1
  cases found2.symm.trans same2
  exact joins

/-! ## Runs -/

theorem Drawn.unset (drawn : s.Drawn) : s.netPageUnsetPlink.Drawn where
  graph := drawn.graph
  ips := drawn.ips
  drawn := drawn.drawn

theorem Drawn.press (drawn : s.Drawn) (control : Bool) (listed : po ∈ s.np.pageObjects)
    (own : s.np.owner po = po) :
    ∃ s', pressHighlight control po s = .ok s' ∧ s'.Drawn ∧ s'.menu = s.menu := by
  rw [pressHighlight]
  cases control with
  | true =>
    obtain ⟨f, run, drawn', -⟩ := drawn.highlight (!s.highlight po) listed
    exact ⟨_, run, drawn', rfl⟩
  | false =>
    by_cases marked : s.highlight po
    case pos =>
      obtain ⟨f, run, drawn', -⟩ := drawn.highlight true listed
      exact ⟨_, (if_pos marked).trans run, drawn', rfl⟩
    case neg =>
      obtain ⟨f, only, drawn₁, -⟩ := drawn.only listed own
      obtain ⟨g, run, drawn', -⟩ := drawn₁.unset.highlight true listed
      refine ⟨_, (if_neg marked).trans ?_, drawn', rfl⟩
      rw [only]
      exact run

/-- The menu is opened for what is highlighted then. -/
theorem Drawn.select_show {f : Nat → Bool} (drawn : (s.mark f).Drawn) (marked : f po = true)
    (enough : s.np.pageObjects.length ≤ fuel) :
    ∃ s', pageObjectShowOptionList fuel po (s.mark f).netPageSetPlink = .ok s' ∧ s'.Inv := by
  obtain ⟨drawn', same, chained⟩ := drawn.select
  refine drawn'.show chained ?_ ?_
  · rw [same.highlight]
    exact marked
  · rwa [same.np]

/-- While something is highlighted, the selection is what is highlighted. -/
theorem Inv.selected (inv : s.Inv) (marked : s.highlight po = true) : s.Chained s.chosen := by
  obtain ⟨xs, chained, -, rfl | ⟨nothing, -⟩⟩ := inv.chained
  · exact chained
  · have member := mem_chosen.mpr ⟨(inv.drawn po marked).1, marked⟩
    rw [nothing] at member
    cases member

theorem Inv.pressMenu (inv : s.Inv) (control : Bool) (listed : po ∈ s.np.pageObjects)
    (own : s.np.owner po = po) (enough : s.np.pageObjects.length ≤ fuel) :
    ∃ s', Session.pressMenu fuel control po s = .ok s' ∧ s'.Inv := by
  rw [Session.pressMenu]
  cases control with
  | true =>
    obtain ⟨f, run, drawn', marked⟩ := inv.toDrawn.highlight true listed
    rw [run]
    exact drawn'.select_show (marked own) enough
  | false =>
    by_cases marked : s.highlight po
    case pos =>
      obtain ⟨s', run, inv'⟩ := inv.toDrawn.show (inv.selected marked) marked enough
      exact ⟨s', (if_pos marked).trans run, inv'⟩
    case neg =>
      obtain ⟨f, only, drawn', marked'⟩ := inv.toDrawn.only listed own
      obtain ⟨s', run, inv'⟩ := drawn'.select_show marked' enough
      refine ⟨s', (if_neg marked).trans ?_, inv'⟩
      rw [only]
      exact run

theorem Inv.close (inv : s.Inv) : Inv { s with menu := none } where
  graph := inv.graph
  ips := inv.ips
  drawn := inv.drawn
  chained := inv.chained
  menu _ opened := absurd opened nofun

theorem offered {choice : Choice} (permitted : (Event.choose choice).Permitted s) :
    ∃ choices, s.menu = some choices ∧ choice ∈ choices := by
  rw [Event.Permitted] at permitted
  cases opened : s.menu with
  | none =>
    rw [opened] at permitted
    cases permitted
  | some choices =>
    rw [opened] at permitted
    exact ⟨choices, rfl, permitted⟩

/-- Whatever happens, the program does not fail, and the invariant is kept. -/
theorem Inv.step (inv : s.Inv) (event : Event) (permitted : event.Permitted s) :
    ∃ s', event.exec s = .ok s' ∧ s'.Inv := by
  have enough : s.np.pageObjects.length ≤ s.np.pageObjects.length := le_rfl
  cases event with
  | press control po =>
    obtain ⟨closed, listed, own⟩ := permitted
    obtain ⟨s₁, run, drawn, menu⟩ := inv.toDrawn.press control listed own
    refine ⟨s₁.netPageSetPlink, ?_, drawn.select_inv (menu.trans closed)⟩
    rw [Event.exec, Session.press, run]
    rfl
  | pressMenu control po => exact inv.pressMenu control permitted.2.1 permitted.2.2 enough
  | pressPage =>
    obtain ⟨f, run, drawn, off⟩ := inv.toDrawn.all false
    refine ⟨(s.mark f).netPageUnsetPlink, ?_, drawn.unset.inv ?_ permitted⟩
    · rw [Event.exec, Session.pressPage, run]
      rfl
    · rw [chosen_nil (off rfl)]
      rfl
  | band inside =>
    obtain ⟨f, run, drawn⟩ := inv.toDrawn.inside inside
    refine ⟨(s.mark f).netPageSetPlink, ?_, drawn.select_inv permitted⟩
    rw [Event.exec, Session.band, run]
    rfl
  | selectAll =>
    obtain ⟨f, run, drawn, -⟩ := inv.toDrawn.all true
    refine ⟨(s.mark f).netPageSetPlink, ?_, drawn.select_inv permitted⟩
    rw [Event.exec, doSelectAll, run]
    rfl
  | choose choice =>
    obtain ⟨choices, opened, member⟩ := offered permitted
    obtain ⟨chained, several, choice'⟩ := inv.menu choices opened
    cases choice with
    | merge =>
      obtain ⟨p, xs, selected⟩ := List.exists_cons_of_length_pos (two_pos.trans_le (several member))
      obtain ⟨s', run, inv', -⟩ :=
        inv.close.merge_joins (selected ▸ chained) selected.symm rfl enough
      exact ⟨s', run, inv'⟩
    | unmerge => exact inv.close.unmerge chained rfl enough
    | setMergePrimary po =>
      exact inv.close.setMergePrimary (choice' po member).2 chained rfl enough
  | dismiss => exact ⟨_, rfl, inv.close⟩
  | discoverReply ip addr => exact ⟨_, rfl, (inv.addHost ip permitted).inv⟩
  | mapReply ip1 ip2 addr1 addr2 pol => exact inv.mapReply permitted

theorem inv_empty : empty.Inv where
  graph := by
    refine ⟨.nil, ?_, ?_, ?_, ?_, ?_, ?_, ?_, ?_⟩ <;> simp [empty, NetPage.realEnds, Joins]
  ips := .nil
  drawn h marked := absurd marked Bool.false_ne_true
  chained := ⟨[], rfl, nofun, .inl rfl⟩
  menu _ opened := absurd opened nofun

variable {events : List Event}

theorem run_inv (run : Run Step empty events s) : s.Inv :=
  run.state_invariant inv_empty fun s event s' inv ⟨permitted, exec⟩ => by
    obtain ⟨s₁, exec', inv'⟩ := inv.step event permitted
    cases exec.symm.trans exec'
    exact inv'

/-- In every session the merge graph stays well formed, and the selected hosts are different hosts
    of the page.  Nothing that can happen makes the program fail. -/
theorem session_kept (run : Run Step empty events s) :
    s.np.MergeGraph ∧ (s.np.pageObjects.map s.ip).Nodup ∧
      (∀ h, s.highlight h = true → h ∈ s.np.pageObjects ∧ s.np.owner h = h) ∧
      (∃ pos, s.Chained pos ∧ pos.Nodup ∧ ∀ h ∈ pos, h ∈ s.np.pageObjects) ∧
      (∀ choices, s.menu = some choices → s.Chained s.chosen) ∧
      ∀ event : Event, event.Permitted s → ∃ s', event.exec s = .ok s' := by
  have inv := run_inv run
  obtain ⟨pos, chained, listed, -⟩ := inv.chained
  refine ⟨inv.graph, inv.ips, inv.drawn, ⟨pos, chained, Seg.nodup chained, listed⟩,
    fun choices opened => (inv.menu choices opened).1, fun event permitted => ?_⟩
  obtain ⟨s', exec, -⟩ := inv.step event permitted
  exact ⟨s', exec⟩

/-- Two hosts are found and selected, and a menu is opened. -/
theorem run_two : ∃ s, Run Step empty
    [.discoverReply 1 1, .discoverReply 2 2, .selectAll, .pressMenu true 1] s ∧
      s.menu = some [.merge] ∧ s.np.pageObjects = [2, 1] := by
  refine ⟨_, .snoc (.snoc (.snoc (.snoc .refl ⟨rfl, rfl⟩) ⟨rfl, rfl⟩) ⟨rfl, rfl⟩) ⟨?_, rfl⟩,
    rfl, rfl⟩
  exact ⟨rfl, .tail _ (.head _), rfl⟩

theorem session_kept_two : ∃ s, s.np.pageObjects = [2, 1] ∧ s.np.MergeGraph ∧
    ∃ s', (Event.choose .merge).exec s = .ok s' := by
  obtain ⟨s, run, opened, hosts⟩ := run_two
  obtain ⟨graph, -, -, -, -, runs⟩ := session_kept run
  refine ⟨s, hosts, graph, runs (.choose .merge) ?_⟩
  simp [Event.Permitted, opened]

/-- When the entry of the menu is chosen, exactly the groups of the selected hosts become one, that
    of the first in the chain.  No link changes its ends, and nothing stays selected. -/
theorem merge_selected (run : Run Step empty events s)
    (permitted : (Event.choose .merge).Permitted s) :
    ∃ p others s', s.Chained (p :: others) ∧ others ≠ [] ∧
      (∀ h, h ∈ p :: others ↔ h ∈ s.np.pageObjects ∧ s.highlight h = true) ∧
      (Event.choose .merge).exec s = .ok s' ∧ s'.np.pageObjects = s.np.pageObjects ∧
      s'.np.realEnds = s.np.realEnds ∧ s'.Chained [] ∧ (∀ h, s'.highlight h = false) ∧
      ∀ h ∈ s.np.pageObjects,
        s'.np.owner h = if s.np.owner h ∈ others then p else s.np.owner h := by
  have inv := run_inv run
  obtain ⟨choices, opened, member⟩ := offered permitted
  obtain ⟨chained, several, -⟩ := inv.menu choices opened
  have two := several member
  match selected : s.chosen with
  | [] | [_] => simp [selected] at two
  | p :: q :: qs =>
    obtain ⟨s', exec, -, rest⟩ :=
      inv.close.merge_joins (selected ▸ chained) selected.symm rfl le_rfl
    refine ⟨p, q :: qs, s', selected ▸ chained, List.cons_ne_nil _ _, fun h => ?_, exec, rest⟩
    rw [← selected]
    exact mem_chosen

theorem merge_selected_two : ∃ s s', (Event.choose .merge).exec s = .ok s' ∧
    s.np.pageObjects = [2, 1] ∧ s'.np.pageObjects = [2, 1] ∧ ∀ h, s'.highlight h = false := by
  obtain ⟨s, run, opened, hosts⟩ := run_two
  obtain ⟨p, others, s', -, -, -, exec, same, -, -, off, -⟩ := merge_selected run (by
    simp [Event.Permitted, opened])
  exact ⟨s, s', exec, hosts, same.trans hosts, off⟩

end Cheops.Canvas.Session
