import Cheops.Io.Basic

/-! # One call of `cheops_io_wait`

`live` says what is to be in the table: what has been added, less what has been passed to
`cheops_io_remove` and less what has returned 0 from its own callback.

The loop and `current_ioc` keep the index of the entry whose callback runs.  A callback that
removes another entry while its own is the last one moves its own entry to another index.  When
it returns, the entries that are to go have to stand where the loop looks (`Settled`); the call is
right exactly when they do after each callback (`cheopsIoWait_settled_iff`).
-/

namespace Cheops.Io

open Cheops.Lib

variable {κ : Type}

/-! ## The turns of the loop -/

section Turns

variable {σ : Type} (invoke : Slot κ → Poll κ × σ → Bool × Poll κ × σ) (p : Poll κ × σ)

def turned : Nat → Poll κ × σ
  | 0 => p
  | x + 1 => if x < (turned x).1.fdcnt then ioTurn invoke x (turned x) else turned x

variable {invoke p}

theorem turned_succ {x : Nat} (h : x < (turned invoke p x).1.fdcnt) :
    turned invoke p (x + 1) = ioTurn invoke x (turned invoke p x) := if_pos h

/-- The loop has ended. -/
theorem turned_ended {x : Nat} (h : ¬ x < (turned invoke p x).1.fdcnt) (k : Nat) :
    turned invoke p (x + k) = turned invoke p x := by
  induction k with
  | zero => rfl
  | succ k ih =>
    have hend : ¬ x + k < (turned invoke p (x + k)).1.fdcnt := by
      rw [ih]
      omega
    rw [← Nat.add_assoc, ← ih]
    exact if_neg hend

theorem ioLoop_turned {x k : Nat} (h : ¬ x + k < (turned invoke p (x + k)).1.fdcnt) :
    ioLoop invoke k x (turned invoke p x) = some (turned invoke p (x + k)) := by
  induction k generalizing x with
  | zero => exact if_neg h
  | succ k ih =>
    unfold ioLoop
    split
    next hlt =>
      rw [← turned_succ hlt, ih (by rwa [Nat.add_right_comm, Nat.add_assoc]),
        Nat.add_right_comm, Nat.add_assoc]
    next hend => rw [turned_ended hend]

/-- What the loop leaves, if it ends. -/
theorem ioLoop_eq_turned {x k : Nat} {p' : Poll κ × σ}
    (h : ioLoop invoke k x (turned invoke p x) = some p') : p' = turned invoke p (x + k) := by
  induction k generalizing x with
  | zero =>
    unfold ioLoop at h
    split at h
    · cases h
    · exact (Option.some.inj h).symm
  | succ k ih =>
    unfold ioLoop at h
    split at h
    next hlt =>
      rw [← turned_succ hlt] at h
      rw [ih h, Nat.add_right_comm, Nat.add_assoc]
    next hend =>
      rw [turned_ended hend]
      exact (Option.some.inj h).symm

end Turns

/-! ## Callbacks -/

/-- What a callback does to the table; `block` is the block `malloc` gives. -/
inductive Action (κ : Type)
  | add (fd : Int) (callback : κ) (events data : Nat) (block : Option Nat)
  | remove (id : Nat)

structure Behaviour (κ : Type) where
  actions : List (Action κ)
  ret : Bool

/-- What is to be in the table, and the behaviour of the callbacks that are still to run. -/
structure Registry (κ : Type) where
  live : List (Registration κ)
  script : List (Behaviour κ)

def act (p : Poll κ × List (Registration κ)) : Action κ → Poll κ × List (Registration κ)
  | .add fd callback events data block =>
    let (id, io) := cheopsIoAdd fd callback events data block p.1
    (io, p.2 ++ (id.map fun id => ⟨p.1.registered, fd, callback, events, data, id⟩).toList)
  | .remove id => ((cheopsIoRemove id p.1).2, p.2.filter (·.id ≠ id))

/-- What is to be in the table once a callback of `own` has returned. -/
def liveAfter (own : Registration κ) (ret : Bool) (live : List (Registration κ)) :
    List (Registration κ) :=
  if ret then live else live.filter (·.reg ≠ own.reg)

def runCallback (s : Slot κ) (p : Poll κ × Registry κ) : Bool × Poll κ × Registry κ :=
  match p.2.script with
  | [] => (true, p)
  | b :: script =>
    let (io, live) := b.actions.foldl act (p.1, p.2.live)
    (b.ret, io, { live := liveAfter s.toRegistration b.ret live, script })

/-- `malloc` gives a block that is not in use, and only the id pointers of live entries are
    passed to `cheops_io_remove`. -/
def Permitted (p : Poll κ × List (Registration κ)) : Action κ → Prop
  | .add _ _ _ _ block => ∀ q ∈ block, p.1.cell q = none
  | .remove id => ∃ r ∈ p.2, r.id = id

def AllPermitted : Poll κ × List (Registration κ) → List (Action κ) → Prop
  | _, [] => True
  | p, a :: as => Permitted p a ∧ AllPermitted (act p a) as

def called (x : Nat) (p : Poll κ × Registry κ) : Poll κ × Registry κ :=
  (p.1.calling x, p.2)

/-! ## The condition -/

/-- A callback has returned `ret` at index `x`.  The entries that are to go are the one at `x`,
    if the loop is about to remove it, and no others. -/
def Settled (x : Nat) (ret : Bool) (io : Poll κ) (live : List (Registration κ)) : Prop :=
  let shrinks := !ret || io.removeCurrentIoc
  (shrinks → x < io.fdcnt) ∧
    ∀ i < io.fdcnt, (io.slot i).toRegistration ∉ live ↔ shrinks ∧ i = x

/-- The condition for the turn at index `x`: if it runs a callback, `Settled` holds when that
    returns. -/
def TurnSettled (x : Nat) (p : Poll κ × Registry κ) : Prop :=
  (p.1.slot x).revents ≠ 0 →
    let r := runCallback (p.1.slot x) (called x p)
    Settled x r.1 r.2.1 r.2.2.live

/-- What the callback of the turn at index `x` does, if it runs one, is permitted. -/
def TurnPermitted (x : Nat) (p : Poll κ × Registry κ) : Prop :=
  (p.1.slot x).revents ≠ 0 →
    ∀ b ∈ p.2.script.head?, AllPermitted ((called x p).1, p.2.live) b.actions

/-- The table is well formed and has exactly the entries that are to be in it. -/
def Sound (p : Poll κ × Registry κ) : Prop :=
  p.1.WellFormed ∧ p.1.table.Perm p.2.live

/-! ## Quiet entries

The loop runs no callback for an entry with nothing ready.
-/

/-- Nothing is ready from index `n` on. -/
def Poll.QuietFrom (n : Nat) (io : Poll κ) : Prop :=
  ∀ i, n ≤ i → i < io.fdcnt → (io.slot i).revents = 0

section Quiet

variable {io : Poll κ} {n : Nat}

theorem Poll.QuietFrom.shrink (h : io.QuietFrom n) (which : Nat) :
    (ioShrink which io).QuietFrom n := by
  intro i hn hi
  rw [ioShrink_fdcnt] at hi
  rw [ioShrink_slot hi]
  by_cases hw : i = which
  · rw [hw, Function.update_self]
    exact h _ (by omega) (by omega)
  · rw [Function.update_of_ne hw]
    exact h i hn (by omega)

theorem Poll.QuietFrom.add (h : io.QuietFrom n) (fd : Int) (callback : κ) (events data : Nat)
    (block : Option Nat) : (cheopsIoAdd fd callback events data block io).2.QuietFrom n := by
  intro i hn hi
  cases block with
  | none =>
    have hi : i < io.fdcnt := hi
    simp only [cheopsIoAdd]
    rw [Function.update_of_ne (by omega)]
    exact h i hn hi
  | some p =>
    have hi : i < io.fdcnt + 1 := hi
    simp only [cheopsIoAdd]
    by_cases hnew : i = io.fdcnt
    · rw [hnew, Function.update_self]
    · rw [Function.update_of_ne hnew]
      exact h i hn (by omega)

theorem Poll.QuietFrom.remove (h : io.QuietFrom n) (id : Nat) :
    (cheopsIoRemove id io).2.QuietFrom n := by
  unfold cheopsIoRemove
  split
  · exact h
  · split
    · exact h
    · split
      · exact h.shrink _
      · exact h

theorem Poll.QuietFrom.act {p : Poll κ × List (Registration κ)} (h : p.1.QuietFrom n)
    (a : Action κ) : (act p a).1.QuietFrom n := by
  cases a with
  | add fd callback events data block => exact h.add fd callback events data block
  | remove id => exact h.remove id

theorem Poll.QuietFrom.actions {p : Poll κ × List (Registration κ)} (h : p.1.QuietFrom n)
    (as : List (Action κ)) : (as.foldl Io.act p).1.QuietFrom n := by
  induction as generalizing p with
  | nil => exact h
  | cons a as ih => exact ih (h.act a)

theorem Poll.QuietFrom.runCallback {p : Poll κ × Registry κ} (h : p.1.QuietFrom n)
    (s : Slot κ) : (runCallback s p).2.1.QuietFrom n := by
  unfold Io.runCallback
  split
  · exact h
  · exact Poll.QuietFrom.actions (p := (p.1, p.2.live)) h _

theorem Poll.QuietFrom.turn {p : Poll κ × Registry κ} (h : p.1.QuietFrom n) (x : Nat) :
    (ioTurn Io.runCallback x p).1.QuietFrom n := by
  unfold ioTurn
  dsimp only
  split
  · exact h
  · split
    · exact h
    next v _ =>
      have hcall : (p.1.calling v).QuietFrom n := h
      have hret := Poll.QuietFrom.runCallback (p := (p.1.calling v, p.2)) hcall (p.1.slot x)
      change (settle x _ _).QuietFrom n
      unfold settle
      split
      · exact hret.shrink x
      · exact hret

theorem turned_quiet {p : Poll κ × Registry κ} (h : p.1.QuietFrom n) (x : Nat) :
    (turned Io.runCallback p x).1.QuietFrom n := by
  induction x with
  | zero => exact h
  | succ x ih =>
    unfold turned
    split
    · exact ih.turn x
    · exact ih

/-- From where nothing is ready the loop changes nothing. -/
theorem turned_of_quiet {σ : Type} {invoke : Slot κ → Poll κ × σ → Bool × Poll κ × σ}
    {p : Poll κ × σ} {x : Nat} (h : (turned invoke p x).1.QuietFrom x) (k : Nat) :
    turned invoke p (x + k) = turned invoke p x := by
  induction k with
  | zero => rfl
  | succ k ih =>
    by_cases hlt : x + k < (turned invoke p (x + k)).1.fdcnt
    · rw [← Nat.add_assoc, turned_succ hlt, ih]
      rw [ih] at hlt
      exact if_pos (h (x + k) (by omega) hlt)
    · rw [← ih, ← Nat.add_assoc]
      exact if_neg hlt

end Quiet

/-! ## Inside a callback

`Inside` is kept by everything a callback does.  Either its own entry has not been moved, and
then no entry is to go but that one; or it has, and then nothing is ready from there on.
-/

/-- The entry at index `x` is still `own`; only this one may be to go, and it is once
    `cheops_io_remove` has met its index. -/
structure Unmoved (x : Nat) (own : Registration κ) (p : Poll κ × List (Registration κ)) :
    Prop where
  index : x < p.1.fdcnt
  own : (p.1.slot x).toRegistration = own
  others : ∀ i < p.1.fdcnt, i ≠ x → (p.1.slot i).toRegistration ∈ p.2
  self : (p.1.slot x).toRegistration ∉ p.2 ↔ p.1.removeCurrentIoc = true

/-- In the callback of the entry `own`, called at index `x`. -/
structure Inside (x : Nat) (own : Registration κ) (p : Poll κ × List (Registration κ)) :
    Prop where
  wf : p.1.WellFormed
  current : p.1.currentIoc = x
  sub : ∀ r ∈ p.2, r ∈ p.1.table
  nodup : p.2.Nodup
  own : Unmoved x own p ∨ p.1.QuietFrom x

section Inside

variable {x : Nat} {own : Registration κ} {p : Poll κ × List (Registration κ)}

theorem act_add (fd : Int) (callback : κ) (events data : Nat) (block : Option Nat) :
    act p (.add fd callback events data block) =
      ((cheopsIoAdd fd callback events data block p.1).2, p.2 ++
        (block.map fun id => ⟨p.1.registered, fd, callback, events, data, id⟩).toList) := by
  cases block <;> rfl

theorem Unmoved.add (h : Unmoved x own p) {fd : Int} {callback : κ} {events data : Nat}
    {block : Option Nat} (wf : p.1.WellFormed) :
    Unmoved x own (act p (.add fd callback events data block)) := by
  rw [act_add]
  have hslot {i : Nat} (hi : i < p.1.fdcnt) := cheopsIoAdd_slot hi fd callback events data block
  have hx := h.index
  cases block with
  | none =>
    rw [Option.map_none, Option.toList, List.append_nil]
    exact {
      index := hx
      own := by rw [hslot hx, h.own]
      others := fun i hi hne => by rw [hslot hi]; exact h.others i hi hne
      self := by rw [hslot hx]; exact h.self }
  | some q =>
    have hfdcnt : (cheopsIoAdd fd callback events data (some q) p.1).2.fdcnt = p.1.fdcnt + 1 := rfl
    rw [Option.map_some, Option.toList]
    constructor
    case index =>
      rw [hfdcnt]
      omega
    case own => rw [hslot hx, h.own]
    case others =>
      intro i hi hne
      have hi : i < p.1.fdcnt + 1 := hi
      rw [List.mem_append, List.mem_singleton]
      by_cases hnew : i = p.1.fdcnt
      · exact .inr (by simp only [cheopsIoAdd, hnew, Function.update_self])
      · rw [hslot (by omega)]
        exact .inl (h.others i (by omega) hne)
    case self =>
      have hbelow := wf.below _ (slot_mem_table hx)
      have hne : (p.1.slot x).toRegistration ≠
          ⟨p.1.registered, fd, callback, events, data, q⟩ := fun heq => by
        rw [heq] at hbelow
        exact Nat.lt_irrefl _ hbelow
      rw [hslot hx, List.mem_append, List.mem_singleton, or_iff_left hne]
      exact h.self

theorem Inside.add (h : Inside x own p) {fd : Int} {callback : κ} {events data : Nat}
    {block : Option Nat} (fresh : ∀ q ∈ block, p.1.cell q = none) :
    Inside x own (act p (.add fd callback events data block)) := by
  have htable := cheopsIoAdd_table fd callback events data block p.1
  constructor
  case own =>
    rcases h.own with hown | hquiet
    · exact .inl (hown.add h.wf)
    · exact .inr (hquiet.act _)
  all_goals rw [act_add]
  case wf => exact h.wf.add fresh
  case current => cases block <;> exact h.current
  case sub =>
    intro r hr
    rw [htable]
    rw [List.mem_append] at hr ⊢
    exact hr.imp_left (h.sub r)
  case nodup =>
    refine List.Nodup.append h.nodup ?_ fun r hr hnew => ?_
    · cases block <;> simp
    · rw [Option.mem_toList] at hnew
      obtain ⟨q, -, rfl⟩ := Option.map_eq_some_iff.mp hnew
      exact Nat.lt_irrefl _ (h.wf.below _ (h.sub _ hr))

theorem mem_without {live : List (Registration κ)} {id : Nat} {r : Registration κ} :
    r ∈ live.filter (·.id ≠ id) ↔ r ∈ live ∧ r.id ≠ id := by
  simp

/-- A callback removes another entry while its own is not moved. -/
theorem Unmoved.shrink (h : Unmoved x own p) (wf : p.1.WellFormed) {i : Nat}
    (hi : i < p.1.fdcnt) (hix : i ≠ x) (hlast : x ≠ p.1.fdcnt - 1) :
    Unmoved x own (ioShrink i p.1, p.2.filter (·.id ≠ (p.1.slot i).id)) := by
  have hx := h.index
  have hslot {j : Nat} (hj : j < p.1.fdcnt - 1) :
      (ioShrink i p.1).slot j = Function.update p.1.slot i (p.1.slot (p.1.fdcnt - 1)) j :=
    ioShrink_slot hj
  have hne {j : Nat} (hj : j < p.1.fdcnt) (hji : j ≠ i) :
      (p.1.slot j).id ≠ (p.1.slot i).id := fun heq => hji (wf.index hj hi heq)
  have hslotx : (ioShrink i p.1).slot x = p.1.slot x := by
    rw [hslot (by omega), Function.update_of_ne hix.symm]
  constructor
  case index =>
    rw [ioShrink_fdcnt]
    omega
  case own => rw [hslotx, h.own]
  case others =>
    intro j hj hjx
    rw [ioShrink_fdcnt] at hj
    rw [hslot hj, mem_without]
    by_cases hji : j = i
    · rw [hji, Function.update_self]
      exact ⟨h.others _ (by omega) hlast.symm, hne (by omega) (by omega)⟩
    · rw [Function.update_of_ne hji]
      exact ⟨h.others j (by omega) hjx, hne (by omega) hji⟩
  case self =>
    rw [hslotx, mem_without, and_iff_left (hne hx hix.symm), ioShrink_removeCurrentIoc]
    exact h.self

theorem Inside.remove (h : Inside x own p) {r : Registration κ} (hr : r ∈ p.2) :
    Inside x own (act p (.remove r.id)) := by
  obtain ⟨i, hi, rfl⟩ := mem_table.mp (h.sub r hr)
  have hcurrent := h.current
  have hnodup : (p.2.filter (·.id ≠ (p.1.slot i).id)).Nodup := h.nodup.filter _
  have hact : act p (.remove (p.1.slot i).id) =
    ((cheopsIoRemove (p.1.slot i).id p.1).2, p.2.filter (·.id ≠ (p.1.slot i).id)) := rfl
  rw [hact]
  rcases h.wf.remove_cases hi with ⟨hix, heq⟩ | ⟨hix, heq⟩
  · obtain rfl : x = i := by omega
    rw [heq]
    refine ⟨h.wf.remembered _ _, hcurrent, fun r hr => h.sub r (mem_without.mp hr).1, hnodup, ?_⟩
    rcases h.own with hown | hquiet
    · left
      exact {
        index := hi
        own := hown.own
        others := fun j hj hjx => mem_without.mpr
          ⟨hown.others j hj hjx, fun heq => hjx (h.wf.index hj hi heq)⟩
        self := iff_of_true (fun hmem => (mem_without.mp hmem).2 rfl) rfl }
    · exact .inr hquiet
  · have hperm := ioShrink_table hi
    rw [heq]
    refine ⟨h.wf.shrink hi, ?_, fun r hr => ?_, hnodup, ?_⟩
    · exact (ioShrink_currentIoc i p.1).trans hcurrent
    · obtain ⟨hr, hid⟩ := mem_without.mp hr
      rcases List.mem_cons.mp (hperm.mem_iff.mpr (h.sub r hr)) with rfl | hmem
      · exact absurd rfl hid
      · exact hmem
    · rcases h.own with hown | hquiet
      · by_cases hlast : x = p.1.fdcnt - 1
        · -- its own entry is moved, and is the last no more
          right
          intro j hxj hj
          have hj : j < (ioShrink i p.1).fdcnt := hj
          rw [ioShrink_fdcnt] at hj
          omega
        · exact .inl (hown.shrink h.wf hi (fun heq => hix (by omega)) hlast)
      · exact .inr (hquiet.shrink i)

theorem Inside.actions (h : Inside x own p) (as : List (Action κ)) (has : AllPermitted p as) :
    Inside x own (as.foldl act p) := by
  induction as generalizing p with
  | nil => exact h
  | cons a as ih =>
    refine ih ?_ has.2
    cases a with
    | add fd callback events data block => exact h.add has.1
    | remove id =>
      obtain ⟨r, hr, rfl⟩ := has.1
      exact h.remove hr

end Inside

/-! ## The return of a callback -/

/-- A callback has returned at index `x`: if the condition does not hold then, nothing is ready
    from there on. -/
structure Returned (x : Nat) (ret : Bool) (io : Poll κ) (live : List (Registration κ)) :
    Prop where
  wf : io.WellFormed
  sub : ∀ r ∈ live, r ∈ io.table
  nodup : live.Nodup
  settled : Settled x ret io live ∨ io.QuietFrom x

section Returned

variable {x : Nat} {own : Registration κ} {ret : Bool} {io : Poll κ}
  {live : List (Registration κ)}

theorem mem_liveAfter {r : Registration κ} :
    r ∈ liveAfter own ret live ↔ r ∈ live ∧ (ret = false → r.reg ≠ own.reg) := by
  cases ret <;> simp [liveAfter]

theorem Unmoved.settled (h : Unmoved x own (io, live)) (wf : io.WellFormed) :
    Settled x ret io (liveAfter own ret live) := by
  have hx : x < io.fdcnt := h.index
  refine ⟨fun _ => hx, fun i hi => ?_⟩
  rw [mem_liveAfter]
  by_cases hix : i = x
  · subst hix
    have hself : (io.slot i).toRegistration ∉ live ↔ io.removeCurrentIoc = true := h.self
    have hown : (io.slot i).toRegistration = own := h.own
    cases ret <;> simp [hown, ← hself]
  · have hmem : (io.slot i).toRegistration ∈ live := h.others i hi hix
    have hreg : (io.slot i).reg ≠ own.reg := fun heq => by
      have hown : (io.slot x).toRegistration = own := h.own
      have := wf.reg_inj (slot_mem_table hi) (slot_mem_table hx) (by rw [hown]; exact heq)
      exact hix (wf.index hi hx (congrArg Registration.id this))
    simp [hmem, hreg, hix]

theorem Inside.returned (h : Inside x own (io, live)) (ret : Bool) :
    Returned x ret io (liveAfter own ret live) := by
  refine ⟨h.wf, fun r hr => h.sub r (mem_liveAfter.mp hr).1, ?_,
    h.own.imp_left fun hown => hown.settled h.wf⟩
  unfold liveAfter
  split
  · exact h.nodup
  · exact h.nodup.filter _

/-- Removing behind the table frees a cell that is not allocated, or that of another entry. -/
theorem Poll.WellFormed.shrink_behind (wf : io.WellFormed) (h : io.fdcnt ≤ x) :
    ¬ (ioShrink x io).WellFormed := by
  intro wf'
  have hfault := wf'.fault
  cases hp : io.cell (io.slot x).id with
  | none =>
    unfold ioShrink at hfault
    dsimp only at hfault
    split at hfault <;> simp [Poll.freeCell, Poll.writeCell, hp] at hfault
  | some v =>
    obtain ⟨i, hi, hid⟩ := wf.owned (io.slot x).id (by rw [hp]; exact Option.some_ne_none v)
    obtain ⟨hcells, hfaults⟩ := ioShrink_moved (show x ≠ io.fdcnt - 1 by omega)
    by_cases hlast : (io.slot (io.fdcnt - 1)).id = (io.slot x).id
    · simp [hfaults, hlast] at hfault
    · have hne : i ≠ io.fdcnt - 1 := fun heq => hlast (by rw [← heq, hid])
      have hcell := wf'.cell i (by rw [ioShrink_fdcnt]; omega)
      rw [ioShrink_slot (by omega), Function.update_of_ne (by omega), hid, hcells] at hcell
      split at hcell <;> simp [Ne.symm hlast] at hcell

theorem Returned.sound_iff (h : Returned x ret io live) :
    (settle x ret io).WellFormed ∧ (settle x ret io).table.Perm live ↔
      Settled x ret io live := by
  have htable : io.table.Nodup := .of_map _ h.wf.regs
  unfold settle Settled
  dsimp only
  cases hshrinks : !ret || io.removeCurrentIoc with
  | false =>
    rw [if_neg Bool.false_ne_true]
    constructor
    · rintro ⟨-, hperm⟩
      refine ⟨fun hshrinks => absurd hshrinks Bool.false_ne_true, fun i hi => ?_⟩
      have hmem := hperm.mem_iff.mp (slot_mem_table hi)
      simp [hmem]
    · rintro ⟨-, hlive⟩
      refine ⟨h.wf, (List.perm_ext_iff_of_nodup htable h.nodup).mpr fun r =>
        ⟨fun hr => ?_, h.sub r⟩⟩
      obtain ⟨i, hi, rfl⟩ := mem_table.mp hr
      by_contra hnot
      simp [hlive i hi] at hnot
  | true =>
    rw [if_pos rfl]
    constructor
    · rintro ⟨hwf, hperm⟩
      have hx : x < io.fdcnt := by
        by_contra hx
        exact h.wf.shrink_behind (by omega) hwf
      have hall := ioShrink_table hx
      have hfree := (List.nodup_cons.mp (hall.nodup_iff.mpr htable)).1
      refine ⟨fun _ => hx, fun i hi => ?_⟩
      rw [← hperm.mem_iff, and_iff_right rfl]
      constructor
      · intro hnot
        rcases List.mem_cons.mp (hall.mem_iff.mpr (slot_mem_table hi)) with heq | hmem
        · exact h.wf.index hi hx (congrArg Registration.id heq)
        · exact absurd hmem hnot
      · rintro rfl
        exact hfree
    · rintro ⟨hx, hlive⟩
      have hx := hx rfl
      have hall := ioShrink_table hx
      obtain ⟨hfree, hnodup⟩ := List.nodup_cons.mp (hall.nodup_iff.mpr htable)
      refine ⟨h.wf.shrink hx, (List.perm_ext_iff_of_nodup hnodup h.nodup).mpr fun r => ?_⟩
      constructor
      · intro hr
        obtain ⟨i, hi, rfl⟩ := mem_table.mp (hall.mem_iff.mp (List.mem_cons_of_mem _ hr))
        by_contra hnot
        obtain ⟨-, rfl⟩ := (hlive i hi).mp hnot
        exact hfree hr
      · intro hr
        rcases List.mem_cons.mp (hall.mem_iff.mpr (h.sub r hr)) with rfl | hmem
        · exact absurd hr ((hlive x hx).mpr ⟨rfl, rfl⟩)
        · exact hmem

end Returned

/-! ## The call -/

section Call

variable {p : Poll κ × Registry κ} {x : Nat}

theorem called_unmoved (sound : Sound p) (hx : x < p.1.fdcnt) :
    Unmoved x (p.1.slot x).toRegistration ((called x p).1, p.2.live) where
  index := hx
  own := rfl
  others _ hi _ := sound.2.mem_iff.mp (slot_mem_table hi)
  self := iff_of_false (not_not.mpr (sound.2.mem_iff.mp (slot_mem_table hx))) nofun

theorem called_inside (sound : Sound p) (hx : x < p.1.fdcnt) :
    Inside x (p.1.slot x).toRegistration ((called x p).1, p.2.live) where
  wf := sound.1.remembered _ _
  current := rfl
  sub _ hr := sound.2.mem_iff.mpr hr
  nodup := sound.2.nodup_iff.mp (.of_map _ sound.1.regs)
  own := .inl (called_unmoved sound hx)

theorem runCallback_returned (sound : Sound p) (hx : x < p.1.fdcnt)
    (hready : (p.1.slot x).revents ≠ 0) (permitted : TurnPermitted x p) :
    let r := runCallback (p.1.slot x) (called x p)
    Returned x r.1 r.2.1 r.2.2.live := by
  have hcalled := called_inside sound hx
  have hscript : (called x p).2.script = p.2.script := rfl
  unfold runCallback
  cases hb : p.2.script with
  | nil =>
    rw [hscript, hb]
    exact hcalled.returned true
  | cons b script =>
    rw [hscript, hb]
    have hactions := hcalled.actions b.actions (permitted hready b (by rw [hb]; rfl))
    exact Inside.returned hactions b.ret

/-- A turn keeps the table right exactly when the condition holds, and when it does not nothing
    is ready any more. -/
theorem sound_turn (sound : Sound p) (hx : x < p.1.fdcnt) (permitted : TurnPermitted x p) :
    (Sound (ioTurn runCallback x p) ↔ TurnSettled x p) ∧
      (TurnSettled x p ∨ (ioTurn runCallback x p).1.QuietFrom x) := by
  by_cases hready : (p.1.slot x).revents = 0
  · have hsettled : TurnSettled x p := fun h => absurd hready h
    have hturn : ioTurn runCallback x p = p := if_pos hready
    rw [hturn]
    exact ⟨iff_of_true sound hsettled, .inl hsettled⟩
  · have hret := runCallback_returned sound hx hready permitted
    rw [ioTurn_ready sound.1 _ _ hx hready]
    have hiff := hret.sound_iff
    refine ⟨⟨fun h _ => hiff.mp ⟨h.1.remembered _ _, h.2⟩, fun h => ?_⟩, ?_⟩
    · obtain ⟨hwf, htable⟩ := hiff.mpr (h hready)
      exact ⟨hwf.remembered _ _, htable⟩
    · refine hret.settled.imp (fun h _ => h) fun hquiet => ?_
      change (settle x _ _).QuietFrom x
      unfold settle
      split
      · exact hquiet.shrink x
      · exact hquiet

/-- The table is right until a turn that does not meet the condition, and then nothing is ready
    any more. -/
theorem turned_sound_or_quiet (sound : Sound p)
    (permitted : ∀ x < (turned runCallback p x).1.fdcnt,
      TurnPermitted x (turned runCallback p x)) (n : Nat) :
    Sound (turned runCallback p n) ∨ (turned runCallback p n).1.QuietFrom n := by
  induction n with
  | zero => exact .inl sound
  | succ n ih =>
    by_cases hn : n < (turned runCallback p n).1.fdcnt
    · rw [turned_succ hn]
      rcases ih with ih | ih
      · obtain ⟨hsound, hquiet⟩ := sound_turn ih hn (permitted n hn)
        exact hquiet.imp hsound.mpr fun hquiet i hi => hquiet i (by omega)
      · exact .inr fun i hi => ih.turn n i (by omega)
    · rw [turned_ended hn 1]
      exact ih.imp_right fun ih i hi => ih i (by omega)

theorem turned_sound_iff (sound : Sound p)
    (permitted : ∀ x < (turned runCallback p x).1.fdcnt,
      TurnPermitted x (turned runCallback p x)) (n : Nat) :
    Sound (turned runCallback p n) ↔
      ∀ x < n, x < (turned runCallback p x).1.fdcnt →
        TurnSettled x (turned runCallback p x) := by
  induction n with
  | zero => exact iff_of_true sound nofun
  | succ n ih =>
    rw [Nat.forall_lt_succ_right]
    by_cases hn : n < (turned runCallback p n).1.fdcnt
    · rw [forall_prop_of_true hn]
      by_cases hsound : Sound (turned runCallback p n)
      · rw [turned_succ hn, (sound_turn hsound hn (permitted n hn)).1, and_iff_right (ih.mp hsound)]
      · have hquiet := (turned_sound_or_quiet sound permitted n).resolve_left hsound
        rw [turned_of_quiet hquiet 1, ← ih]
        exact iff_of_false hsound fun h => hsound h.1
    · rw [turned_ended hn 1, ← ih]
      exact (and_iff_left fun h => absurd h hn).symm

/-- The loop ends. -/
theorem exists_turned_ended (p : Poll κ × Registry κ) :
    ∃ n, ¬ n < (turned runCallback p n).1.fdcnt := by
  have hquiet : p.1.QuietFrom p.1.fdcnt := fun i hi hlt => absurd hlt (by omega)
  have hstops := turned_of_quiet (turned_quiet hquiet p.1.fdcnt)
    (turned runCallback p p.1.fdcnt).1.fdcnt
  refine ⟨p.1.fdcnt + (turned runCallback p p.1.fdcnt).1.fdcnt, ?_⟩
  rw [hstops]
  omega

/-- The program at the beginning of the turn at index `x` of a call of `cheops_io_wait` for which
    `poll` has stored `revents`. -/
def beforeTurn (revents : Nat → Nat) (p : Poll κ × Registry κ) (x : Nat) : Poll κ × Registry κ :=
  turned runCallback (p.1.polled revents, p.2) x

theorem Sound.polled (h : Sound p) (revents : Nat → Nat) : Sound (p.1.polled revents, p.2) :=
  ⟨h.1.polled revents, by rw [polled_table]; exact h.2⟩

/-- A call leaves just what is to be in the table, each entry unchanged and with its index in its
    id cell, if and only if `TurnSettled` holds at every turn. -/
theorem cheopsIoWait_settled_iff (res : Int) (revents : Nat → Nat) (p : Poll κ × Registry κ)
    (sound : Sound p)
    (permitted : ∀ x < (beforeTurn revents p x).1.fdcnt,
      TurnPermitted x (beforeTurn revents p x)) :
    ∃ turns p', cheopsIoWait runCallback turns res revents p = some p' ∧
      (Sound p' ↔ 0 < res → ∀ x < (beforeTurn revents p x).1.fdcnt,
        TurnSettled x (beforeTurn revents p x)) := by
  have hpolled := sound.polled revents
  by_cases hres : 0 < res
  · obtain ⟨n, hn⟩ := exists_turned_ended (p.1.polled revents, p.2)
    refine ⟨n, beforeTurn revents p n, ?_, ?_⟩
    · unfold cheopsIoWait
      dsimp only
      rw [if_pos hres]
      have hloop := ioLoop_turned (x := 0) (k := n) (by rwa [Nat.zero_add])
      rw [Nat.zero_add] at hloop
      exact hloop
    · rw [forall_prop_of_true hres, beforeTurn, turned_sound_iff hpolled permitted]
      refine ⟨fun h x hx => h x ?_ hx, fun h x _ hx => h x hx⟩
      by_contra hnx
      obtain ⟨k, rfl⟩ := Nat.exists_eq_add_of_le (Nat.le_of_not_lt hnx)
      rw [beforeTurn, turned_ended hn] at hx
      omega
  · refine ⟨0, (p.1.polled revents, p.2), if_neg hres, ?_⟩
    exact iff_of_true hpolled fun h => absurd h hres

end Call

/-! ## Outside of the calls -/

theorem Sound.start (slot : Nat → Slot κ) (script : List (Behaviour κ)) :
    Sound (Poll.start slot, { live := [], script }) :=
  ⟨.start slot, .nil⟩

/-- What the program does to the table between two calls keeps it right. -/
theorem Sound.act {p : Poll κ × Registry κ} (h : Sound p) (hidle : p.1.currentIoc = -1)
    {a : Action κ} (permitted : Permitted (p.1, p.2.live) a) :
    let q := Io.act (p.1, p.2.live) a
    Sound (q.1, { p.2 with live := q.2 }) ∧ q.1.currentIoc = -1 := by
  obtain ⟨wf, hperm⟩ := h
  have hnodup := hperm.nodup_iff.mp (.of_map _ wf.regs)
  cases a with
  | add fd callback events data block =>
    rw [act_add]
    refine ⟨⟨wf.add permitted, ?_⟩, by cases block <;> exact hidle⟩
    have htable := cheopsIoAdd_table fd callback events data block p.1
    exact htable ▸ hperm.append_right _
  | remove id =>
    obtain ⟨r, hr, rfl⟩ := permitted
    obtain ⟨wf', hidle', hmem⟩ := wf.remove_idle hidle (hperm.mem_iff.mpr hr)
    refine ⟨⟨wf', ?_⟩, hidle'⟩
    refine (List.perm_ext_iff_of_nodup (.of_map _ wf'.regs) (hnodup.filter _)).mpr fun s => ?_
    rw [mem_without, ← hperm.mem_iff]
    exact hmem s

end Cheops.Io
