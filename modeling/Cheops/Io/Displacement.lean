import Cheops.Io.Wait

/-! # The condition for one call of `cheops_io_wait`

`NoneLost` follows the entries that the call finds and what the callbacks do.  A callback that
removes other entries does no harm as long as its own entry is not the last one of the table.  When
it removes one more, its own entry takes that place, and the loop is left with the index of another
entry or of none.  `cheopsIoWait_sound_iff` says that this is all there is to it.
-/

namespace Cheops.Io

open Cheops.Lib

variable {κ : Type}

/-! ## The condition -/

/-- An entry is removed: the last of these takes its place, which may be in front of them.  An entry
    is given by its id pointer and whether it is ready. -/
def vacate (id : Nat) (entries : List (Nat × Bool)) : List (Nat × Bool) :=
  match entries.getLast? with
  | none => []
  | some last => (entries.map fun e => if e.1 = id then last else e).dropLast

/-- The entry `own`, whose callback runs, has been moved to the front.  There is room for `free`
    entries up to its old place, or `behind` stand from there on; the first of them has been `asked`
    to go, which the loop takes for the running entry.  `stays`: it has not been removed. -/
def movedRight (own : Nat) (ret : Bool) :
    Nat → List (Nat × Bool) → Bool → Bool → List (Action κ) → Bool
  | _, _, asked, stays, [] => ret || (asked && !stays)
  | free, behind, asked, stays, .add _ _ _ _ none :: as =>
    movedRight own ret free behind asked stays as
  | 0, behind, asked, stays, .add _ _ _ _ (some id) :: as =>
    movedRight own ret 0 (behind ++ [(id, false)]) asked stays as
  | free + 1, behind, asked, stays, .add _ _ _ _ (some _) :: as =>
    movedRight own ret free behind asked stays as
  | free, [], asked, stays, .remove id :: as =>
    movedRight own ret (free + 1) [] asked (stays && id != own) as
  | free, first :: more, asked, stays, .remove id :: as =>
    if first.1 = id then movedRight own ret free (first :: more) true stays as
    else
      (!asked || !more.isEmpty) &&
        movedRight own ret free (vacate id (first :: more)) asked (stays && id != own) as

/-- The callback of `own` runs, and `rest` stands behind its entry, which has perhaps been `asked`
    to go.  The result is what the loop has still to look at when the callback returns or, if the
    entry has been moved, whether nothing is lost. -/
def callbackLeaves (own : Nat) (ret : Bool) :
    Bool → List (Nat × Bool) → List (Action κ) → List (Nat × Bool) ⊕ Bool
  | asked, rest, [] => .inl (if !ret || asked then rest.dropLast else rest)
  | asked, rest, .add _ _ _ _ block :: as =>
    callbackLeaves own ret asked (rest ++ (block.map (·, false)).toList) as
  | asked, rest, .remove id :: as =>
    if id = own then callbackLeaves own ret true rest as
    else if rest.isEmpty then .inr (!asked && movedRight own ret 0 [] false true as)
    else callbackLeaves own ret asked (vacate id rest) as

/-- No entry is lost, for the entries that the loop has still to look at and the behaviour of the
    callbacks. -/
def NoneLost : List (Behaviour κ) → List (Nat × Bool) → Bool
  | [], _ => true
  | b :: script, entries =>
    match entries.dropWhile (!·.2) with
    | [] => true
    | s :: rest =>
      match callbackLeaves s.1 b.ret false rest b.actions with
      | .inl rest => NoneLost script rest
      | .inr right => right

/-! ## The entries from an index on -/

def Poll.behind (x : Nat) (io : Poll κ) : List (Nat × Bool) :=
  entries (fun i => ((io.slot (x + i)).id, (io.slot (x + i)).revents != 0)) (io.fdcnt - x)

variable {io : Poll κ} {x : Nat}

theorem behind_eq_nil : io.behind x = [] ↔ io.fdcnt ≤ x := by
  rw [← List.length_eq_zero_iff, Poll.behind, length_entries]
  omega

theorem behind_cons (inside : x < io.fdcnt) :
    io.behind x = ((io.slot x).id, (io.slot x).revents != 0) :: io.behind (x + 1) := by
  have count : io.fdcnt - x = (io.fdcnt - (x + 1)) + 1 := by omega
  rw [Poll.behind, Poll.behind, count, entries, entries, List.range_succ_eq_map, List.map_cons,
    List.map_map]
  refine congrArg (_ :: ·) (List.map_congr_left fun i _ => ?_)
  simp only [Function.comp_apply, Nat.succ_eq_add_one, Nat.add_assoc, Nat.add_comm i 1]

theorem behind_add (le : x ≤ io.fdcnt) (fd : Int) (callback : κ) (events data : Nat)
    (block : Option Nat) : (cheopsIoAdd fd callback events data block io).2.behind x =
      io.behind x ++ (block.map (·, false)).toList := by
  have same : entries (fun i =>
      (((cheopsIoAdd fd callback events data block io).2.slot (x + i)).id,
        ((cheopsIoAdd fd callback events data block io).2.slot (x + i)).revents != 0))
      (io.fdcnt - x) = io.behind x :=
    entries_congr fun i inside => by rw [cheopsIoAdd_slot (by omega)]
  cases block with
  | none => exact same.trans (List.append_nil _).symm
  | some id =>
    have count : io.fdcnt + 1 - x = (io.fdcnt - x) + 1 := by omega
    have last : x + (io.fdcnt - x) = io.fdcnt := by omega
    rw [← same, Poll.behind]
    change entries _ (io.fdcnt + 1 - x) = _
    rw [count, entries_succ, last]
    simp [cheopsIoAdd]

theorem vacate_nil (id : Nat) : vacate id [] = [] := rfl

theorem vacate_of_not_mem {id : Nat} {entries : List (Nat × Bool)}
    (other : ∀ e ∈ entries, e.1 ≠ id) : vacate id entries = entries.dropLast := by
  unfold vacate
  split
  next none => rw [List.getLast?_eq_none_iff.mp none, List.dropLast_nil]
  next last _ =>
    have same : (entries.map fun e => if e.1 = id then last else e) = entries :=
      (List.map_congr_left fun e member => if_neg (other e member)).trans (List.map_id _)
    rw [same]

/-- Removing an entry of the table, in front of `x` or not. -/
theorem behind_shrink (wf : io.WellFormed) {i : Nat} (inside : i < io.fdcnt) (x : Nat) :
    (ioShrink i io).behind x = vacate (io.slot i).id (io.behind x) := by
  by_cases empty : io.fdcnt ≤ x
  case pos =>
    rw [behind_eq_nil.mpr empty, vacate_nil, behind_eq_nil, ioShrink_fdcnt]
    omega
  case neg =>
    have count : io.fdcnt - x = (io.fdcnt - 1 - x) + 1 := by omega
    have back : x + (io.fdcnt - 1 - x) = io.fdcnt - 1 := by omega
    have last : (io.behind x).getLast? = some ((io.slot (io.fdcnt - 1)).id,
        (io.slot (io.fdcnt - 1)).revents != 0) := by
      rw [Poll.behind, count, entries_succ, List.getLast?_concat, back]
    unfold vacate
    rw [last]
    simp only
    rw [Poll.behind, Poll.behind, count, entries_succ, List.map_append, List.map_singleton,
      List.dropLast_concat, ioShrink_fdcnt, entries, entries, List.map_map]
    refine List.map_congr_left fun j member => ?_
    have below : x + j < io.fdcnt - 1 := by
      have := List.mem_range.mp member
      omega
    rw [ioShrink_slot below, Function.comp_apply]
    by_cases here : x + j = i
    · rw [here, Function.update_self, if_pos rfl]
    · rw [Function.update_of_ne here, if_neg fun same => here (wf.index (by omega) inside same)]

/-- What the loop looks at next, once the entry at `x` has been removed. -/
theorem behind_settle (wf : io.WellFormed) (inside : x < io.fdcnt) (ret : Bool) :
    (settle x ret io).behind (x + 1) =
      if !ret || io.removeCurrentIoc then (io.behind (x + 1)).dropLast else io.behind (x + 1) := by
  unfold settle
  split
  · rw [behind_shrink wf inside, vacate_of_not_mem]
    intro e member same
    obtain ⟨j, below, rfl⟩ := mem_entries.mp member
    have := wf.index (by omega) inside same
    omega
  · rfl

/-! ## A callback whose entry has been moved -/

section Moved

variable {own : Registration κ} {free : Nat} {behind : List (Nat × Bool)} {asked stays ret : Bool}
  {p : Poll κ × List (Registration κ)} {as : List (Action κ)}

/-- An entry in front of `x` is to go, but is in the table.  It stays there. -/
def Doomed (x : Nat) (p : Poll κ × List (Registration κ)) : Prop :=
  ∃ i < p.1.fdcnt, i < x ∧ (p.1.slot i).toRegistration ∉ p.2

/-- The entry `own` has been moved in front of `x`, and only the entry at `x` may be to go. -/
structure Moved (x : Nat) (own : Registration κ) (free : Nat) (behind : List (Nat × Bool))
    (asked stays : Bool) (p : Poll κ × List (Registration κ)) : Prop where
  free : x - p.1.fdcnt = free
  behind : p.1.behind x = behind
  flag : p.1.removeCurrentIoc = asked
  index : asked = true → x < p.1.fdcnt
  live : ∀ i < p.1.fdcnt, (p.1.slot i).toRegistration ∉ p.2 ↔ asked = true ∧ i = x
  stays : own ∈ p.2 ↔ stays = true
  front : own ∈ p.2 → ∃ i < p.1.fdcnt, i < x ∧ (p.1.slot i).toRegistration = own
  below : own.reg < p.1.registered
  regs : ∀ r ∈ p.2, r.reg = own.reg → r = own

theorem Doomed.act (doomed : Doomed x p) (wf : p.1.WellFormed)
    (sub : ∀ r ∈ p.2, r ∈ p.1.table) (a : Action κ) (permitted : Permitted p a) :
    Doomed x (act p a) := by
  obtain ⟨i, inside, front, gone⟩ := doomed
  cases a with
  | add fd callback events data block =>
    rw [act_add]
    have kept := cheopsIoAdd_slot inside fd callback events data block
    refine ⟨i, ?_, front, ?_⟩
    · cases block with
      | none => exact inside
      | some id => exact Nat.lt_succ_of_lt inside
    · rw [kept, List.mem_append, not_or]
      refine ⟨gone, fun new => ?_⟩
      obtain ⟨id, -, same⟩ := Option.map_eq_some_iff.mp (Option.mem_toList.mp new)
      have old := wf.below _ (slot_mem_table inside)
      rw [← same] at old
      exact Nat.lt_irrefl _ old
  | remove id =>
    obtain ⟨r, alive, rfl⟩ := permitted
    obtain ⟨k, insidek, rfl⟩ := mem_table.mp (sub r alive)
    have other : i ≠ k := fun same => gone (same ▸ alive)
    change Doomed x ((cheopsIoRemove (p.1.slot k).id p.1).2, p.2.filter (·.id ≠ (p.1.slot k).id))
    rcases wf.remove_cases insidek with ⟨-, removed⟩ | ⟨-, removed⟩ <;> rw [removed]
    · exact ⟨i, inside, front, fun member => gone (mem_without.mp member).1⟩
    · by_cases last : i = p.1.fdcnt - 1
      case pos =>
        refine ⟨k, by rw [ioShrink_fdcnt]; omega, by omega, fun member => gone ?_⟩
        rw [ioShrink_slot (by omega), Function.update_self, ← last] at member
        exact (mem_without.mp member).1
      case neg =>
        refine ⟨i, by rw [ioShrink_fdcnt]; omega, front, fun member => gone ?_⟩
        rw [ioShrink_slot (by omega), Function.update_of_ne other] at member
        exact (mem_without.mp member).1

theorem Doomed.not_settled {live : List (Registration κ)} (doomed : Doomed x (io, live)) :
    ¬ Settled x ret io (liveAfter own ret live) := by
  obtain ⟨i, inside, front, gone⟩ := doomed
  intro settled
  have here := (settled.2 i inside).mp fun member => gone (mem_liveAfter.mp member).1
  omega

/-- The callback returns. -/
theorem Moved.settled_iff {live : List (Registration κ)}
    (moved : Moved x own free behind asked stays (io, live)) (wf : io.WellFormed) (ret : Bool) :
    Settled x ret io (liveAfter own ret live) ↔ (ret || (asked && !stays)) = true := by
  have flag : io.removeCurrentIoc = asked := moved.flag
  have alive : ∀ i < io.fdcnt, (io.slot i).toRegistration ∉ live ↔ asked = true ∧ i = x :=
    moved.live
  have front : own ∈ live → ∃ i < io.fdcnt, i < x ∧ (io.slot i).toRegistration = own :=
    moved.front
  have regs : ∀ r ∈ live, r.reg = own.reg → r = own := moved.regs
  unfold Settled
  rw [flag]
  cases ret with
  | true =>
    simp only [liveAfter, if_true, Bool.not_true, Bool.false_or, Bool.true_or, iff_true]
    exact ⟨moved.index, alive⟩
  | false =>
    simp only [Bool.not_false, Bool.true_or, true_implies, true_and, Bool.false_or,
      Bool.and_eq_true, Bool.not_eq_true']
    constructor
    · rintro ⟨inside, gone⟩
      have other : own ∈ live → (io.slot x).toRegistration ≠ own := fun member same => by
        obtain ⟨i, insidei, before, here⟩ := front member
        have := wf.index insidei inside (congrArg Registration.id (here.trans same.symm))
        omega
      have went : (io.slot x).toRegistration ∉ live := fun member => by
        refine (gone x inside).mpr rfl (mem_liveAfter.mpr ⟨member, fun _ same => ?_⟩)
        have same := regs _ member same
        exact other (same ▸ member) same
      refine ⟨((alive x inside).mp went).1, ?_⟩
      by_contra here
      have member := moved.stays.mpr (Bool.eq_true_of_not_eq_false here)
      obtain ⟨i, insidei, before, same⟩ := front member
      have leaves : (io.slot i).toRegistration ∉ liveAfter own false live := fun kept =>
        (mem_liveAfter.mp kept).2 rfl (by rw [same])
      have := (gone i insidei).mp leaves
      omega
    · rintro ⟨put, went⟩
      have absent : own ∉ live := fun member => by
        rw [moved.stays.mp member] at went
        cases went
      have inside := moved.index put
      refine ⟨inside, fun i insidei => ?_⟩
      rw [← and_iff_right_of_imp (fun _ : i = x => put), ← alive i insidei]
      refine not_congr ⟨fun kept => (mem_liveAfter.mp kept).1, fun member =>
        mem_liveAfter.mpr ⟨member, fun _ same => ?_⟩⟩
      exact absent (regs _ member same ▸ member)

theorem Inside.act (inside : Inside x own p) {a : Action κ} (permitted : Permitted p a) :
    Inside x own (act p a) := inside.actions [a] ⟨permitted, trivial⟩

/-- The entry of another index is removed at once. -/
theorem act_remove (inside : Inside x own p) {k : Nat} (insidek : k < p.1.fdcnt)
    (away : k ≠ x) : act p (.remove (p.1.slot k).id) =
      (ioShrink k p.1, p.2.filter (·.id ≠ (p.1.slot k).id)) := by
  have current := inside.current
  rcases inside.wf.remove_cases insidek with ⟨here, -⟩ | ⟨-, removed⟩
  · omega
  · rw [← removed]
    rfl

/-- The removal of the entry at the index of the loop is put off. -/
theorem act_ask (inside : Inside x own p) (insidex : x < p.1.fdcnt) :
    act p (.remove (p.1.slot x).id) =
      ({ p.1 with removeCurrentIoc := true }, p.2.filter (·.id ≠ (p.1.slot x).id)) := by
  rcases inside.wf.remove_cases insidex with ⟨-, removed⟩ | ⟨away, -⟩
  · rw [← removed]
    rfl
  · exact absurd inside.current away

theorem Doomed.actions (doomed : Doomed x p) (inside : Inside x own p)
    (permitted : AllPermitted p as) : Doomed x (as.foldl Io.act p) := by
  induction as generalizing p with
  | nil => exact doomed
  | cons a as ih =>
    exact ih (doomed.act inside.wf inside.sub a permitted.1) (inside.act permitted.1) permitted.2

theorem Moved.add_none (moved : Moved x own free behind asked stays p) (fd : Int) (callback : κ)
    (events data : Nat) :
    Moved x own free behind asked stays (act p (.add fd callback events data none)) := by
  have kept {i : Nat} (inside : i < p.1.fdcnt) :=
    cheopsIoAdd_slot inside fd callback events data none
  have same : act p (.add fd callback events data none) =
      ((cheopsIoAdd fd callback events data none p.1).2, p.2) := by
    rw [act_add]
    exact congrArg (Prod.mk _) (List.append_nil p.2)
  rw [same]
  refine ⟨moved.free, ?_, moved.flag, moved.index, fun i inside => ?_, moved.stays,
    fun member => ?_, moved.below, moved.regs⟩
  · rw [← moved.behind]
    refine entries_congr fun i inside => ?_
    have inside : i < p.1.fdcnt - x := inside
    rw [kept (by omega)]
  · rw [kept inside]
    exact moved.live i inside
  · obtain ⟨i, inside, front, here⟩ := moved.front member
    exact ⟨i, inside, front, by rw [kept inside, here]⟩

theorem Moved.add_some (moved : Moved x own free behind asked stays p) (wf : p.1.WellFormed)
    (fd : Int) (callback : κ) (events data id : Nat) :
    Moved x own (free - 1) (if free = 0 then behind ++ [(id, false)] else behind) asked stays
      (act p (.add fd callback events data (some id))) := by
  have kept {i : Nat} (inside : i < p.1.fdcnt) :=
    cheopsIoAdd_slot inside fd callback events data (some id)
  have count : (cheopsIoAdd fd callback events data (some id) p.1).2.fdcnt = p.1.fdcnt + 1 := rfl
  have room := moved.free
  rw [act_add, Option.map_some, Option.toList]
  refine ⟨?_, ?_, moved.flag, fun put => Nat.lt_succ_of_lt (moved.index put), fun i inside => ?_,
    ?_, fun member => ?_, Nat.lt_succ_of_lt moved.below, fun r member same => ?_⟩
  · rw [count]
    omega
  · rw [← moved.behind]
    by_cases full : free = 0
    case pos =>
      rw [if_pos full]
      exact behind_add (by omega) fd callback events data (some id)
    case neg =>
      rw [if_neg full, behind_eq_nil.mpr (by omega : p.1.fdcnt ≤ x), behind_eq_nil, count]
      omega
  · rw [count] at inside
    rw [List.mem_append, List.mem_singleton]
    by_cases new : i = p.1.fdcnt
    case pos =>
      refine iff_of_false (fun none => none (.inr ?_)) fun ⟨put, here⟩ => ?_
      · simp only [cheopsIoAdd, new, Function.update_self]
      · have := moved.index put
        omega
    case neg =>
      have old := wf.below _ (slot_mem_table (show i < p.1.fdcnt by omega))
      rw [kept (by omega), or_iff_left fun same => by rw [same] at old; exact Nat.lt_irrefl _ old]
      exact moved.live i (by omega)
  · rw [← moved.stays, List.mem_append, List.mem_singleton, or_iff_left]
    intro same
    have below := moved.below
    rw [same] at below
    exact Nat.lt_irrefl _ below
  · have below := moved.below
    rcases List.mem_append.mp member with member | new
    · obtain ⟨i, inside, front, here⟩ := moved.front member
      exact ⟨i, by rw [count]; omega, front, by rw [kept inside, here]⟩
    · rw [List.mem_singleton.mp new] at below
      exact absurd below (Nat.lt_irrefl _)
  · have below := moved.below
    rcases List.mem_append.mp member with member | new
    · exact moved.regs r member same
    · rw [← same, List.mem_singleton.mp new] at below
      exact absurd below (Nat.lt_irrefl _)

/-- The entry at `x` is asked to go, which is put off. -/
theorem Moved.ask (moved : Moved x own free behind asked stays p) (wf : p.1.WellFormed)
    (inside : x < p.1.fdcnt) :
    Moved x own free behind true stays
      ({ p.1 with removeCurrentIoc := true }, p.2.filter (·.id ≠ (p.1.slot x).id)) := by
  have other : own ∈ p.2 → own.id ≠ (p.1.slot x).id := fun member same => by
    obtain ⟨i, insidei, front, here⟩ := moved.front member
    rw [← here] at same
    have := wf.index insidei inside same
    omega
  refine ⟨moved.free, moved.behind, rfl, fun _ => inside, fun i insidei => ?_, ?_, fun member => ?_,
    moved.below, fun r member => moved.regs r (mem_without.mp member).1⟩
  · change _ ∉ p.2.filter _ ↔ _
    rw [mem_without, eq_self, true_and]
    constructor
    · intro gone
      by_contra away
      refine gone ⟨?_, fun same => away (wf.index insidei inside same)⟩
      by_contra absent
      exact away ((moved.live i insidei).mp absent).2
    · rintro rfl ⟨-, apart⟩
      exact apart rfl
  · rw [← moved.stays]
    exact mem_without.trans (and_iff_left_of_imp other)
  · exact moved.front (mem_without.mp member).1

/-- Another entry is removed. -/
theorem Moved.shrink (moved : Moved x own free behind asked stays p) (wf : p.1.WellFormed) {k : Nat}
    (inside : k < p.1.fdcnt) (away : k ≠ x) (keeps : asked = true → x ≠ p.1.fdcnt - 1) :
    Moved x own (x - (p.1.fdcnt - 1)) (vacate (p.1.slot k).id behind) asked
      (stays && (p.1.slot k).id != own.id)
      (ioShrink k p.1, p.2.filter (·.id ≠ (p.1.slot k).id)) := by
  have slot {j : Nat} (below : j < p.1.fdcnt - 1) : (ioShrink k p.1).slot j =
      Function.update p.1.slot k (p.1.slot (p.1.fdcnt - 1)) j := ioShrink_slot below
  refine ⟨by rw [ioShrink_fdcnt], ?_, (ioShrink_removeCurrentIoc k p.1).trans moved.flag,
    fun put => ?_, fun i below => ?_, ?_, fun member => ?_, ?_,
    fun r member => moved.regs r (mem_without.mp member).1⟩
  · rw [behind_shrink wf inside, moved.behind]
  · have := moved.index put
    have := keeps put
    rw [ioShrink_fdcnt]
    omega
  · rw [ioShrink_fdcnt] at below
    rw [slot below, mem_without]
    by_cases here : i = k
    case pos =>
      have apart : (p.1.slot (p.1.fdcnt - 1)).id ≠ (p.1.slot k).id := fun same => by
        have := wf.index (by omega) inside same
        omega
      rw [here, Function.update_self, and_iff_left apart, moved.live _ (by omega)]
      exact iff_of_false (fun ⟨put, last⟩ => keeps put last.symm) fun ⟨_, there⟩ => away there
    case neg =>
      have apart : (p.1.slot i).id ≠ (p.1.slot k).id := fun same =>
        here (wf.index (by omega) inside same)
      rw [Function.update_of_ne here, and_iff_left apart]
      exact moved.live i (by omega)
  · rw [mem_without, moved.stays, Bool.and_eq_true, bne_iff_ne, ne_comm]
  · obtain ⟨member, apart⟩ := mem_without.mp member
    obtain ⟨i, insidei, front, same⟩ := moved.front member
    have other : i ≠ k := fun here => apart (by rw [← same, here])
    by_cases last : i = p.1.fdcnt - 1
    case pos =>
      refine ⟨k, by rw [ioShrink_fdcnt]; omega, by omega, ?_⟩
      rw [slot (by omega), Function.update_self, ← last, same]
    case neg =>
      refine ⟨i, by rw [ioShrink_fdcnt]; omega, front, ?_⟩
      rw [slot (by omega), Function.update_of_ne other, same]
  · rw [ioShrink_registered]
    exact moved.below

/-- What is left when it returns, by what it still does. -/
theorem Moved.right_iff (moved : Moved x own free behind asked stays p) (inside : Inside x own p)
    (permitted : AllPermitted p as) (ret : Bool) :
    Settled x ret (as.foldl Io.act p).1 (liveAfter own ret (as.foldl Io.act p).2) ↔
      movedRight own.id ret free behind asked stays as = true := by
  induction as generalizing p free behind asked stays with
  | nil =>
    rw [movedRight]
    exact moved.settled_iff inside.wf ret
  | cons a as ih =>
    obtain ⟨first, rest⟩ := permitted
    have inside' := inside.act first
    cases a with
    | add fd callback events data block =>
      cases block with
      | none =>
        rw [movedRight]
        exact ih (moved.add_none fd callback events data) inside' rest
      | some id =>
        have next := ih (moved.add_some inside.wf fd callback events data id) inside' rest
        cases free with
        | zero =>
          rw [movedRight]
          exact next
        | succ free =>
          rw [movedRight]
          exact next
    | remove id =>
      obtain ⟨r, alive, rfl⟩ := first
      obtain ⟨k, insidek, rfl⟩ := mem_table.mp (inside.sub r alive)
      have room := moved.free
      by_cases empty : p.1.fdcnt ≤ x
      case pos =>
        obtain rfl : behind = [] := moved.behind.symm.trans (behind_eq_nil.mpr empty)
        have away : k ≠ x := by omega
        have step := act_remove inside insidek away
        have next := moved.shrink inside.wf insidek away fun put => by
          have := moved.index put
          omega
        rw [vacate_nil, show x - (p.1.fdcnt - 1) = free + 1 by omega] at next
        rw [movedRight]
        rw [step] at inside' rest
        rw [List.foldl_cons, step]
        exact ih next inside' rest
      case neg =>
        obtain rfl : (_ :: p.1.behind (x + 1)) = behind :=
          (behind_cons (by omega)).symm.trans moved.behind
        rw [movedRight]
        by_cases here : k = x
        case pos =>
          subst here
          have step := act_ask inside insidek
          rw [if_pos rfl]
          rw [step] at inside' rest
          rw [List.foldl_cons, step]
          exact ih (moved.ask inside.wf insidek) inside' rest
        case neg =>
          have step := act_remove inside insidek here
          have last : (p.1.behind (x + 1)).isEmpty = true ↔ x = p.1.fdcnt - 1 := by
            rw [List.isEmpty_iff, behind_eq_nil]
            omega
          rw [if_neg fun same => here (inside.wf.index insidek (by omega) same.symm)]
          rw [step] at inside' rest
          rw [List.foldl_cons, step]
          by_cases lost : asked = true ∧ x = p.1.fdcnt - 1
          case pos =>
            -- the entry that has been asked to go comes to the front
            have doomed : Doomed x (ioShrink k p.1, p.2.filter (·.id ≠ (p.1.slot k).id)) := by
              refine ⟨k, by rw [ioShrink_fdcnt]; omega, by omega, fun member => ?_⟩
              rw [ioShrink_slot (by omega), Function.update_self, ← lost.2] at member
              exact (moved.live x (by omega)).mpr ⟨lost.1, rfl⟩ (mem_without.mp member).1
            refine iff_of_false (doomed.actions inside' rest).not_settled ?_
            rw [last.mpr lost.2, lost.1]
            simp
          case neg =>
            have keeps : (!asked || !(p.1.behind (x + 1)).isEmpty) = true := by
              rw [Bool.or_eq_true, Bool.not_eq_true', Bool.not_eq_true', ← Bool.not_eq_true,
                ← Bool.not_eq_true, last]
              tauto
            have next := moved.shrink inside.wf insidek here fun put same => lost ⟨put, same⟩
            rw [show x - (p.1.fdcnt - 1) = free by omega] at next
            rw [keeps, Bool.true_and]
            exact ih next inside' rest

end Moved

/-! ## A callback -/

section Standing

variable {own : Registration κ} {asked ret : Bool} {rest : List (Nat × Bool)}
  {p : Poll κ × List (Registration κ)} {as : List (Action κ)}

/-- The running entry is at its index, and `rest` behind it. -/
structure Standing (x : Nat) (own : Registration κ) (asked : Bool) (rest : List (Nat × Bool))
    (p : Poll κ × List (Registration κ)) : Prop where
  inside : Inside x own p
  unmoved : Unmoved x own p
  flag : p.1.removeCurrentIoc = asked
  behind : p.1.behind (x + 1) = rest

theorem Standing.add (standing : Standing x own asked rest p) {fd : Int} {callback : κ}
    {events data : Nat} {block : Option Nat}
    (fresh : ∀ q ∈ block, p.1.cell q = none) :
    Standing x own asked (rest ++ (block.map (·, false)).toList)
      (act p (.add fd callback events data block)) where
  inside := standing.inside.add fresh
  unmoved := standing.unmoved.add standing.inside.wf
  flag := by
    rw [act_add]
    cases block <;> exact standing.flag
  behind := by
    rw [act_add, ← standing.behind]
    exact behind_add standing.unmoved.index fd callback events data block

/-- Its own removal is put off. -/
theorem Standing.ask (standing : Standing x own asked rest p)
    (permitted : Permitted p (.remove own.id)) :
    Standing x own true rest (act p (.remove own.id)) := by
  obtain ⟨inside, unmoved, flag, behind⟩ := standing
  have index := unmoved.index
  have here := unmoved.own
  have step : act p (.remove own.id) =
      ({ p.1 with removeCurrentIoc := true }, p.2.filter (·.id ≠ own.id)) := by
    rw [← here]
    exact act_ask inside index
  refine ⟨inside.act permitted, ?_, by rw [step], by rw [step]; exact behind⟩
  rw [step]
  refine ⟨index, here, fun j insidej away => ?_, ?_⟩
  · refine mem_without.mpr ⟨unmoved.others j insidej away, fun same => away ?_⟩
    exact inside.wf.index insidej index (by rw [here, same])
  · refine iff_of_true (fun member => (mem_without.mp member).2 ?_) rfl
    exact congrArg Registration.id here

/-- Another entry is removed while there are entries behind. -/
theorem Standing.shrink (standing : Standing x own asked rest p) {k : Nat}
    (insidek : k < p.1.fdcnt) (away : k ≠ x) (more : rest ≠ [])
    (permitted : Permitted p (.remove (p.1.slot k).id)) :
    Standing x own asked (vacate (p.1.slot k).id rest) (act p (.remove (p.1.slot k).id)) := by
  obtain ⟨inside, unmoved, flag, behind⟩ := standing
  have step := act_remove inside insidek away
  have last : x ≠ p.1.fdcnt - 1 := fun last => by
    refine more (behind.symm.trans (behind_eq_nil.mpr ?_))
    omega
  refine ⟨inside.act permitted, ?_, ?_, ?_⟩ <;> rw [step]
  · exact unmoved.shrink inside.wf insidek away last
  · exact (ioShrink_removeCurrentIoc k p.1).trans flag
  · exact (behind_shrink inside.wf insidek _).trans (by rw [behind])

/-- Another entry is removed while there are none: the running entry is moved. -/
theorem Standing.displaced (standing : Standing x own asked [] p) {k : Nat}
    (insidek : k < p.1.fdcnt) (away : k ≠ x) :
    let q := act p (.remove (p.1.slot k).id)
    q.1.QuietFrom x ∧ (asked = true → Doomed x q) ∧
      (asked = false → Moved x own 0 [] false true q) := by
  obtain ⟨inside, unmoved, flag, behind⟩ := standing
  have index := unmoved.index
  have count := behind_eq_nil.mp behind
  have step := act_remove inside insidek away
  have last : p.1.fdcnt - 1 = x := by omega
  have slot {j : Nat} (below : j < p.1.fdcnt - 1) : (ioShrink k p.1).slot j =
      Function.update p.1.slot k (p.1.slot x) j := by
    rw [ioShrink_slot below, last]
  have apart {j : Nat} (insidej : j < p.1.fdcnt) (other : j ≠ k) :
      (p.1.slot j).id ≠ (p.1.slot k).id := fun same => other (inside.wf.index insidej insidek same)
  have here : ((ioShrink k p.1).slot k).toRegistration = own := by
    rw [slot (by omega), Function.update_self, unmoved.own]
  rw [step]
  refine ⟨fun j le below => ?_, fun put => ?_, fun stays => ?_⟩
  · have below : j < (ioShrink k p.1).fdcnt := below
    rw [ioShrink_fdcnt] at below
    omega
  · refine ⟨k, by rw [ioShrink_fdcnt]; omega, by omega, fun member => ?_⟩
    rw [here, ← unmoved.own] at member
    exact unmoved.self.mpr (flag.trans put) (mem_without.mp member).1
  · have alive : own ∈ p.2 := by
      by_contra gone
      rw [← unmoved.own, unmoved.self, flag, stays] at gone
      cases gone
    have alive' : own ∈ p.2.filter (·.id ≠ (p.1.slot k).id) := by
      refine mem_without.mpr ⟨alive, ?_⟩
      rw [← unmoved.own]
      exact apart index (Ne.symm away)
    refine ⟨by rw [ioShrink_fdcnt]; omega, ?_, ?_, nofun, fun i below => ?_, iff_of_true alive' rfl,
      fun _ => ⟨k, by rw [ioShrink_fdcnt]; omega, by omega, here⟩, ?_, fun r member same => ?_⟩
    · rw [behind_eq_nil, ioShrink_fdcnt]
      omega
    · exact (ioShrink_removeCurrentIoc k p.1).trans (flag.trans stays)
    · have below : i < (ioShrink k p.1).fdcnt := below
      rw [ioShrink_fdcnt] at below
      refine iff_of_false (not_not.mpr ?_) nofun
      by_cases moved : i = k
      case pos =>
        rw [moved, here]
        exact alive'
      case neg =>
        rw [slot below, Function.update_of_ne moved]
        exact mem_without.mpr ⟨unmoved.others i (by omega) (by omega), apart (by omega) moved⟩
    · rw [ioShrink_registered]
      exact inside.wf.below _ (inside.sub _ alive)
    · exact inside.wf.reg_inj (inside.sub _ (mem_without.mp member).1) (inside.sub _ alive) same

/-- What a callback leaves when it returns. -/
theorem Standing.leaves (standing : Standing x own asked rest p) (permitted : AllPermitted p as)
    (ret : Bool) :
    let q := as.foldl act p
    match callbackLeaves own.id ret asked rest as with
    | .inl rest' => Settled x ret q.1 (liveAfter own ret q.2) ∧
        (settle x ret q.1).behind (x + 1) = rest'
    | .inr right => q.1.QuietFrom x ∧
        (Settled x ret q.1 (liveAfter own ret q.2) ↔ right = true) := by
  induction as generalizing p asked rest with
  | nil =>
    rw [callbackLeaves]
    refine ⟨standing.unmoved.settled standing.inside.wf, ?_⟩
    rw [List.foldl_nil, behind_settle standing.inside.wf standing.unmoved.index, standing.flag,
      standing.behind]
  | cons a as ih =>
    obtain ⟨first, later⟩ := permitted
    cases a with
    | add fd callback events data block =>
      rw [callbackLeaves]
      exact ih (standing.add first) later
    | remove id =>
      rw [callbackLeaves]
      by_cases here : id = own.id
      case pos =>
        subst here
        rw [if_pos rfl]
        exact ih (standing.ask first) later
      case neg =>
        rw [if_neg here]
        have inside' := standing.inside.act first
        have listed := first
        obtain ⟨r, alive, rfl⟩ := listed
        obtain ⟨k, insidek, rfl⟩ := mem_table.mp (standing.inside.sub r alive)
        have away : k ≠ x := fun same => here (by rw [same, standing.unmoved.own])
        by_cases more : rest = []
        case neg =>
          rw [if_neg (by simpa using more)]
          exact ih (standing.shrink insidek away more first) later
        case pos =>
          subst more
          obtain ⟨quiet, doomed, moved⟩ := standing.displaced insidek away
          rw [if_pos List.isEmpty_nil]
          refine ⟨quiet.actions as, ?_⟩
          cases asked with
          | true => exact iff_of_false ((doomed rfl).actions inside' later).not_settled nofun
          | false =>
            rw [Bool.not_false, Bool.true_and]
            exact (moved rfl).right_iff inside' later ret

end Standing

/-! ## The loop -/

section Loop

variable {p : Poll κ × Registry κ}

def SettledFrom (x : Nat) (p : Poll κ × Registry κ) : Prop :=
  ∀ y, x ≤ y → y < (turned runCallback p y).1.fdcnt → TurnSettled y (turned runCallback p y)

theorem settledFrom_succ (inside : x < (turned runCallback p x).1.fdcnt) :
    SettledFrom x p ↔ TurnSettled x (turned runCallback p x) ∧ SettledFrom (x + 1) p := by
  constructor
  · exact fun settled => ⟨settled x (Nat.le_refl x) inside, fun y le => settled y (by omega)⟩
  · rintro ⟨here, later⟩ y le insidey
    rcases Nat.eq_or_lt_of_le le with rfl | lt
    · exact here
    · exact later y lt insidey

/-- Nothing is ready any more. -/
theorem settledFrom_quiet (quiet : (turned runCallback p x).1.QuietFrom x) : SettledFrom x p := by
  intro y le inside ready
  obtain ⟨k, rfl⟩ := Nat.exists_eq_add_of_le le
  rw [turned_of_quiet quiet k] at inside ready
  exact absurd (quiet _ le inside) ready

/-- A callback that has no behaviour left does no harm. -/
theorem settledFrom_idle (sound : Sound (turned runCallback p x))
    (script : (turned runCallback p x).2.script = []) : SettledFrom x p := by
  have turn {q : Poll κ × Registry κ} {y : Nat} (sound : Sound q) (script : q.2.script = [])
      (inside : y < q.1.fdcnt) :
      TurnSettled y q ∧ (ioTurn runCallback y q).2.script = [] := by
    have idle : runCallback (q.1.slot y) (called y q) = (true, called y q) := by
      have none : (called y q).2.script = [] := script
      rw [runCallback, none]
    refine ⟨fun ready => ?_, ?_⟩
    · rw [idle]
      refine ⟨nofun, fun i insidei => iff_of_false (not_not.mpr ?_) nofun⟩
      exact sound.2.mem_iff.mp (slot_mem_table insidei)
    · by_cases ready : (q.1.slot y).revents = 0
      case pos => rwa [show ioTurn runCallback y q = q from if_pos ready]
      case neg =>
        have step := ioTurn_ready sound.1 runCallback q.2 inside ready
        change (ioTurn runCallback y (q.1, q.2)).2.script = []
        rw [step]
        change (returned y (runCallback (q.1.slot y) (called y q))).2.script = []
        rw [idle]
        exact script
  have kept (y : Nat) (le : x ≤ y) : Sound (turned runCallback p y) ∧
      (turned runCallback p y).2.script = [] := by
    induction y, le using Nat.le_induction with
    | base => exact ⟨sound, script⟩
    | succ y le ih =>
      obtain ⟨sound, script⟩ := ih
      by_cases inside : y < (turned runCallback p y).1.fdcnt
      case neg => rwa [turned_ended inside 1, and_iff_right sound]
      case pos =>
        obtain ⟨settled, left⟩ := turn sound script inside
        rw [turned_succ inside]
        refine ⟨(sound_turn sound inside fun ready b first => ?_).1.mpr settled, left⟩
        rw [script] at first
        cases first
  intro y le inside
  exact (turn (kept y le).1 (kept y le).2 inside).1

/-- The turn for an entry that is ready. -/
theorem turn_leaves {q : Poll κ × Registry κ} {b : Behaviour κ} {script : List (Behaviour κ)}
    (sound : Sound q) (inside : x < q.1.fdcnt) (ready : (q.1.slot x).revents ≠ 0)
    (permitted : TurnPermitted x q) (first : q.2.script = b :: script) :
    (ioTurn runCallback x q).2.script = script ∧
      match callbackLeaves (q.1.slot x).id b.ret false (q.1.behind (x + 1)) b.actions with
      | .inl rest => TurnSettled x q ∧ (ioTurn runCallback x q).1.behind (x + 1) = rest
      | .inr right =>
        (ioTurn runCallback x q).1.QuietFrom x ∧ (TurnSettled x q ↔ right = true) := by
  have standing : Standing x (q.1.slot x).toRegistration false (q.1.behind (x + 1))
      ((called x q).1, q.2.live) :=
    ⟨called_inside sound inside, called_unmoved sound inside, rfl, rfl⟩
  have leaves := standing.leaves (permitted ready b (by rw [first]; rfl)) b.ret
  have step := ioTurn_ready sound.1 runCallback q.2 inside ready
  change ioTurn runCallback x q = returned x (runCallback (q.1.slot x) (called x q)) at step
  have callback : runCallback (q.1.slot x) (called x q) =
      (b.ret, (b.actions.foldl act ((called x q).1, q.2.live)).1,
        { live := liveAfter (q.1.slot x).toRegistration b.ret
            (b.actions.foldl act ((called x q).1, q.2.live)).2
          script }) := by
    have script : (called x q).2.script = b :: script := first
    rw [runCallback, script]
    rfl
  have settled : TurnSettled x q ↔ Settled x b.ret
      (b.actions.foldl act ((called x q).1, q.2.live)).1
      (liveAfter (q.1.slot x).toRegistration b.ret
        (b.actions.foldl act ((called x q).1, q.2.live)).2) := by
    rw [TurnSettled, forall_prop_of_true ready, callback]
  rw [step, callback, settled]
  refine ⟨rfl, ?_⟩
  revert leaves
  dsimp only
  split
  · exact fun leaves => leaves
  · rintro ⟨quiet, iff⟩
    refine ⟨?_, iff⟩
    change (settle x b.ret _).QuietFrom x
    unfold settle
    split
    · exact quiet.shrink x
    · exact quiet

/-- The turns from index `x` on, by the entries from there on. -/
theorem settledFrom_iff {script : List (Behaviour κ)} {entries : List (Nat × Bool)}
    (permitted : ∀ x < (turned runCallback p x).1.fdcnt,
      TurnPermitted x (turned runCallback p x))
    (sound : Sound (turned runCallback p x)) (left : (turned runCallback p x).2.script = script)
    (behind : (turned runCallback p x).1.behind x = entries) :
    SettledFrom x p ↔ NoneLost script entries = true := by
  induction script generalizing x entries with
  | nil => exact iff_of_true (settledFrom_idle sound left) rfl
  | cons b script ih =>
    induction entries generalizing x with
    | nil =>
      have ended := behind_eq_nil.mp behind
      exact iff_of_true (settledFrom_quiet fun i le inside => absurd inside (by omega)) rfl
    | cons e rest ih' =>
      have inside : x < (turned runCallback p x).1.fdcnt := by
        by_contra ended
        rw [behind_eq_nil.mpr (by omega)] at behind
        cases behind
      rw [behind_cons inside] at behind
      obtain ⟨rfl, rfl⟩ := List.cons.inj behind
      rw [settledFrom_succ inside]
      by_cases quiet : ((turned runCallback p x).1.slot x).revents = 0
      case pos =>
        have same : turned runCallback p (x + 1) = turned runCallback p x :=
          (turned_succ inside).trans (if_pos quiet)
        have settled : TurnSettled x (turned runCallback p x) := fun ready => absurd quiet ready
        rw [and_iff_right settled, ih' (by rwa [same]) (by rwa [same]) (by rw [same]), NoneLost,
          NoneLost, List.dropWhile_cons_of_pos (by simp [quiet])]
      case neg =>
        obtain ⟨left', leaves⟩ := turn_leaves sound inside quiet (permitted x inside) left
        rw [NoneLost, List.dropWhile_cons_of_neg (by simp [quiet])]
        rw [← turned_succ inside] at left' leaves
        revert leaves
        dsimp only
        split
        next rest' _ =>
          rintro ⟨settled, behind'⟩
          have sound' := ((sound_turn sound inside (permitted x inside)).1).mpr settled
          rw [← turned_succ inside] at sound'
          rw [and_iff_right settled]
          exact ih sound' left' behind'
        next right _ =>
          rintro ⟨quiet', settled⟩
          rw [settled, and_iff_left (settledFrom_quiet fun i le => quiet' i (by omega))]

end Loop

/-! ## The call -/

def found (revents : Nat → Nat) (io : Poll κ) : List (Nat × Bool) := (io.polled revents).behind 0

/-- A call leaves just what is to be in the table, each entry unchanged and with its index in its
    id cell, if and only if none is lost. -/
theorem cheopsIoWait_sound_iff (res : Int) (revents : Nat → Nat) (p : Poll κ × Registry κ)
    (sound : Sound p)
    (permitted : ∀ x < (beforeTurn revents p x).1.fdcnt,
      TurnPermitted x (beforeTurn revents p x)) :
    ∃ turns p', cheopsIoWait runCallback turns res revents p = some p' ∧
      (Sound p' ↔ 0 < res → NoneLost p.2.script (found revents p.1) = true) := by
  obtain ⟨turns, p', run, iff⟩ := cheopsIoWait_settled_iff res revents p sound permitted
  refine ⟨turns, p', run, iff.trans (imp_congr_right fun _ => ?_)⟩
  have all : SettledFrom 0 (p.1.polled revents, p.2) ↔
      NoneLost p.2.script (found revents p.1) = true :=
    settledFrom_iff permitted (sound.polled revents) rfl rfl
  rw [← all]
  exact ⟨fun settled y _ => settled y, fun settled y => settled y (Nat.zero_le y)⟩

/-! ## A lost entry -/

def threeEntries : Poll Unit × List (Registration Unit) :=
  [Action.add 5 () 1 50 (some 100), .add 6 () 1 60 (some 101), .add 7 () 1 70 (some 102)].foldl
    act (Poll.start fun _ => ⟨⟨0, 0, (), 0, 0, 0⟩, 0⟩, [])

def removesFirst : Poll Unit × Registry Unit :=
  (threeEntries.1, { live := threeEntries.2, script := [⟨[.remove 100], false⟩] })

def lastReady (i : Nat) : Nat := if i = 2 then 1 else 0

theorem removesFirst_sound : Sound removesFirst := by
  have h₀ := Sound.start (fun _ => ⟨⟨0, 0, (), 0, 0, 0⟩, 0⟩) [⟨[.remove 100], false⟩]
  obtain ⟨h₁, idle₁⟩ := h₀.act rfl (a := .add 5 () 1 50 (some 100)) fun q hq => rfl
  obtain ⟨h₂, idle₂⟩ := h₁.act idle₁ (a := .add 6 () 1 60 (some 101)) fun q hq => by
    obtain rfl := Option.some.inj hq
    decide
  obtain ⟨h₃, -⟩ := h₂.act idle₂ (a := .add 7 () 1 70 (some 102)) fun q hq => by
    obtain rfl := Option.some.inj hq
    decide
  exact h₃

theorem removesFirst_permitted :
    ∀ x < (beforeTurn lastReady removesFirst x).1.fdcnt,
      TurnPermitted x (beforeTurn lastReady removesFirst x) := by
  intro x hx hready b hb
  by_cases hlt : x < 3
  · interval_cases x
    · exact absurd rfl hready
    · exact absurd rfl hready
    · obtain rfl := Option.some.inj hb
      exact ⟨⟨⟨0, 5, (), 1, 50, 100⟩, by decide, rfl⟩, trivial⟩
  · obtain ⟨k, rfl⟩ := Nat.exists_eq_add_of_le (Nat.le_of_not_lt hlt)
    have hend : ¬ 3 < (beforeTurn lastReady removesFirst 3).1.fdcnt := by decide
    have hfdcnt : (beforeTurn lastReady removesFirst 3).1.fdcnt = 1 := by decide
    rw [beforeTurn, turned_ended hend] at hx
    change 3 + k < (beforeTurn lastReady removesFirst 3).1.fdcnt at hx
    omega

/-- The entry whose callback returned 0 stays with a freed id cell, and another one is lost. -/
theorem cheopsIoWait_loses_entry :
    Sound removesFirst ∧
      (∀ x < (beforeTurn lastReady removesFirst x).1.fdcnt,
        TurnPermitted x (beforeTurn lastReady removesFirst x)) ∧
      ∃ p', cheopsIoWait runCallback 3 1 lastReady removesFirst = some p' ∧
        p'.2.live.map (·.fd) = [6] ∧ p'.1.table.map (·.fd) = [7] ∧
        p'.1.cell (p'.1.slot 0).id = none ∧ ¬ Sound p' := by
  refine ⟨removesFirst_sound, removesFirst_permitted, _, rfl, by decide, by decide, by decide, ?_⟩
  rintro ⟨wf, -⟩
  have := wf.cell 0 (by decide)
  revert this
  decide

theorem cheopsIoWait_sound_iff_removesFirst :
    ∃ turns p', cheopsIoWait runCallback turns 1 lastReady removesFirst = some p' ∧
      (Sound p' ↔ (0 : Int) < 1 →
        NoneLost removesFirst.2.script (found lastReady removesFirst.1) = true) :=
  cheopsIoWait_sound_iff 1 lastReady removesFirst removesFirst_sound removesFirst_permitted

end Cheops.Io
