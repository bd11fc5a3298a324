import Cheops.Lib.SwapRemove

/-! # The poll table (`io.c`)

The poll table as `io.c` keeps it.  The arrays `fds` and `ior` have the same index and are one
function here, which also gives what is left behind `fdcnt`; they are taken to grow when they
have to.  An id pointer is the address of its cell, and a cell holds an `int` while it is
allocated.

To free, read or write a cell that is not allocated is undefined; the ghost `fault` records it.
-/

namespace Cheops.Io

open Cheops.Lib

/-- What a caller has registered.  `reg` is a ghost that numbers the registrations. -/
structure Registration (κ : Type) where
  reg : Nat
  fd : Int
  callback : κ
  events : Nat
  data : Nat
  id : Nat
deriving DecidableEq, Repr

/-- An entry of `fds` and `ior`. -/
structure Slot (κ : Type) extends Registration κ where
  revents : Nat
deriving DecidableEq, Repr

/-- The static variables of `io.c`, the id cells, and the ghosts. -/
structure Poll (κ : Type) where
  slot : Nat → Slot κ
  fdcnt : Nat
  currentIoc : Int
  removeCurrentIoc : Bool
  cell : Nat → Option Nat
  fault : Bool
  registered : Nat

variable {κ : Type}

def Poll.start (slot : Nat → Slot κ) : Poll κ :=
  { slot, fdcnt := 0, currentIoc := -1, removeCurrentIoc := false, cell := fun _ => none
    fault := false, registered := 0 }

def Poll.table (io : Poll κ) : List (Registration κ) :=
  entries (fun i => (io.slot i).toRegistration) io.fdcnt

/-- `free` of an id cell. -/
def Poll.freeCell (p : Nat) (io : Poll κ) : Poll κ :=
  { io with cell := Function.update io.cell p none, fault := io.fault || (io.cell p).isNone }

/-- `*p = v`, for an id pointer. -/
def Poll.writeCell (p v : Nat) (io : Poll κ) : Poll κ :=
  { io with
    cell := if (io.cell p).isSome then Function.update io.cell p (some v) else io.cell
    fault := io.fault || (io.cell p).isNone }

/-- `cheops_io_add`; `block` is what `malloc` returns for the cell. -/
def cheopsIoAdd (fd : Int) (callback : κ) (events data : Nat) (block : Option Nat) (io : Poll κ) :
    Option Nat × Poll κ :=
  let new (p : Nat) : Slot κ :=
    { reg := io.registered, fd, callback, events, data, id := p, revents := 0 }
  match block with
  | none => (none, { io with slot := Function.update io.slot io.fdcnt (new 0) })
  | some p =>
    (some p, { io with
      slot := Function.update io.slot io.fdcnt (new p)
      fdcnt := io.fdcnt + 1
      cell := Function.update io.cell p (some io.fdcnt)
      registered := io.registered + 1 })

def ioShrink (which : Nat) (io : Poll κ) : Poll κ :=
  let io := { io with fdcnt := io.fdcnt - 1 }
  let io := io.freeCell (io.slot which).id
  if which = io.fdcnt then io
  else
    let io := { io with slot := Function.update io.slot which (io.slot io.fdcnt) }
    io.writeCell (io.slot which).id which

def cheopsIoRemove (id : Nat) (io : Poll κ) : Int × Poll κ :=
  match io.cell id with
  | none => (-1, { io with fault := true })
  | some v =>
    if io.currentIoc = v then (-1, { io with removeCurrentIoc := true })
    else if v < io.fdcnt then (0, ioShrink v io)
    else (-1, io)

def Poll.polled (revents : Nat → Nat) (io : Poll κ) : Poll κ :=
  { io with
    slot := fun i => if i < io.fdcnt then { io.slot i with revents := revents i } else io.slot i }

/-- The loop is about to run the callback of the entry whose id cell holds `v`. -/
def Poll.calling (v : Nat) (io : Poll κ) : Poll κ :=
  { io with currentIoc := v, removeCurrentIoc := false }

def settle (x : Nat) (ret : Bool) (io : Poll κ) : Poll κ :=
  if !ret || io.removeCurrentIoc then ioShrink x io else io

/-- The program when a callback at index `x` has returned, with what `r` says. -/
def returned {σ : Type} (x : Nat) (r : Bool × Poll κ × σ) : Poll κ × σ :=
  ({ settle x r.1 r.2.1 with currentIoc := -1 }, r.2.2)

/-- One turn of the loop of `cheops_io_wait`, at index `x`.  `invoke` runs a callback on the
    program, which consists of the table and the rest `σ`; what it returns is `true` for
    non-zero. -/
def ioTurn {σ : Type} (invoke : Slot κ → Poll κ × σ → Bool × Poll κ × σ) (x : Nat)
    (p : Poll κ × σ) : Poll κ × σ :=
  let io := p.1
  if (io.slot x).revents = 0 then p
  else
    let s := io.slot x
    match io.cell s.id with
    | none => ({ io with fault := true }, p.2)
    | some v => returned x (invoke s (io.calling v, p.2))

/-- The loop of `cheops_io_wait` from index `x`, if it ends within the given number of turns. -/
def ioLoop {σ : Type} (invoke : Slot κ → Poll κ × σ → Bool × Poll κ × σ) :
    Nat → Nat → Poll κ × σ → Option (Poll κ × σ)
  | 0, x, p => if x < p.1.fdcnt then none else some p
  | turns + 1, x, p =>
    if x < p.1.fdcnt then ioLoop invoke turns (x + 1) (ioTurn invoke x p) else some p

/-- `cheops_io_wait`, where `poll` stores `revents` and returns `res`. -/
def cheopsIoWait {σ : Type} (invoke : Slot κ → Poll κ × σ → Bool × Poll κ × σ) (turns : Nat)
    (res : Int) (revents : Nat → Nat) (p : Poll κ × σ) : Option (Poll κ × σ) :=
  let p := (p.1.polled revents, p.2)
  if 0 < res then ioLoop invoke turns 0 p else some p

/-! ## Small lemmas -/

@[simp] theorem freeCell_slot (p : Nat) (io : Poll κ) : (io.freeCell p).slot = io.slot := rfl
@[simp] theorem freeCell_fdcnt (p : Nat) (io : Poll κ) : (io.freeCell p).fdcnt = io.fdcnt := rfl
@[simp] theorem writeCell_slot (p v : Nat) (io : Poll κ) : (io.writeCell p v).slot = io.slot := rfl
@[simp] theorem writeCell_fdcnt (p v : Nat) (io : Poll κ) : (io.writeCell p v).fdcnt = io.fdcnt :=
  rfl

theorem mem_table {r : Registration κ} {io : Poll κ} :
    r ∈ io.table ↔ ∃ i < io.fdcnt, (io.slot i).toRegistration = r := mem_entries

/-! ## Well-formed tables -/

/-- Every id cell of the table is allocated and holds the index of its entry, there are no other
    cells, and nothing undefined has happened; registrations are numbered apart. -/
structure Poll.WellFormed (io : Poll κ) : Prop where
  cell : ∀ i < io.fdcnt, io.cell (io.slot i).id = some i
  owned : ∀ p, io.cell p ≠ none → ∃ i < io.fdcnt, (io.slot i).id = p
  regs : (io.table.map (·.reg)).Nodup
  below : ∀ r ∈ io.table, r.reg < io.registered
  fault : io.fault = false

variable {io : Poll κ}

theorem Poll.WellFormed.start (slot : Nat → Slot κ) : (Poll.start slot).WellFormed :=
  ⟨nofun, fun _ h => absurd rfl h, .nil, nofun, rfl⟩

theorem Poll.WellFormed.index (wf : io.WellFormed) {i j : Nat} (hi : i < io.fdcnt)
    (hj : j < io.fdcnt) (h : (io.slot i).id = (io.slot j).id) : i = j := by
  have heq := (wf.cell i hi).symm.trans ((congrArg io.cell h).trans (wf.cell j hj))
  exact Option.some.inj heq

theorem Poll.WellFormed.ids (wf : io.WellFormed) : (io.table.map (·.id)).Nodup := by
  rw [Poll.table, entries, List.map_map]
  refine List.Nodup.map_on (fun i hi j hj h => ?_) List.nodup_range
  exact wf.index (List.mem_range.mp hi) (List.mem_range.mp hj) h

theorem slot_mem_table {i : Nat} (h : i < io.fdcnt) : (io.slot i).toRegistration ∈ io.table :=
  mem_table.mpr ⟨i, h, rfl⟩

/-- Registrations in a well-formed table are told apart by their numbers. -/
theorem Poll.WellFormed.reg_inj (wf : io.WellFormed) {r s : Registration κ}
    (hr : r ∈ io.table) (hs : s ∈ io.table) (h : r.reg = s.reg) : r = s :=
  List.inj_on_of_nodup_map wf.regs hr hs h

theorem Poll.WellFormed.id_inj (wf : io.WellFormed) {r s : Registration κ}
    (hr : r ∈ io.table) (hs : s ∈ io.table) (h : r.id = s.id) : r = s :=
  List.inj_on_of_nodup_map wf.ids hr hs h

/-- What the loop remembers of the running entry does not matter. -/
theorem Poll.WellFormed.remembered (wf : io.WellFormed) (current : Int) (remove : Bool) :
    Poll.WellFormed { io with currentIoc := current, removeCurrentIoc := remove } :=
  ⟨wf.cell, wf.owned, wf.regs, wf.below, wf.fault⟩

theorem Poll.WellFormed.calling (wf : io.WellFormed) (v : Nat) : (io.calling v).WellFormed :=
  wf.remembered v false

@[simp] theorem ioShrink_currentIoc (which : Nat) (io : Poll κ) :
    (ioShrink which io).currentIoc = io.currentIoc := by
  unfold ioShrink
  dsimp only
  split <;> rfl

@[simp] theorem ioShrink_removeCurrentIoc (which : Nat) (io : Poll κ) :
    (ioShrink which io).removeCurrentIoc = io.removeCurrentIoc := by
  unfold ioShrink
  dsimp only
  split <;> rfl

@[simp] theorem ioShrink_registered (which : Nat) (io : Poll κ) :
    (ioShrink which io).registered = io.registered := by
  unfold ioShrink
  dsimp only
  split <;> rfl

@[simp] theorem ioShrink_fdcnt (which : Nat) (io : Poll κ) :
    (ioShrink which io).fdcnt = io.fdcnt - 1 := by
  unfold ioShrink
  dsimp only
  split <;> rfl

theorem ioShrink_slot {which i : Nat} (h : i < io.fdcnt - 1) :
    (ioShrink which io).slot i = Function.update io.slot which (io.slot (io.fdcnt - 1)) i := by
  unfold ioShrink
  dsimp only
  split
  next hlast =>
    have hlast : which = io.fdcnt - 1 := hlast
    rw [Function.update_of_ne (by omega)]
    rfl
  next => rfl

/-- Removing an entry of the table takes it out, and nothing else. -/
theorem ioShrink_table {which : Nat} (h : which < io.fdcnt) :
    ((io.slot which).toRegistration :: (ioShrink which io).table).Perm io.table := by
  have hn : io.fdcnt = io.fdcnt - 1 + 1 := by omega
  have hswap := swapRemove_perm (f := fun i => (io.slot i).toRegistration) (hn ▸ h)
  have htable : (ioShrink which io).table =
      entries (Function.update (fun i => (io.slot i).toRegistration) which
        (io.slot (io.fdcnt - 1)).toRegistration) (io.fdcnt - 1) := by
    rw [Poll.table, ioShrink_fdcnt]
    refine entries_congr fun i hi => ?_
    rw [ioShrink_slot hi]
    by_cases hw : i = which
    · rw [hw, Function.update_self, Function.update_self]
    · rw [Function.update_of_ne hw, Function.update_of_ne hw]
  rw [htable, Poll.table]
  rwa [← hn] at hswap

theorem mem_ioShrink_table (wf : io.WellFormed) {which : Nat} (h : which < io.fdcnt)
    {r : Registration κ} :
    r ∈ (ioShrink which io).table ↔ r ∈ io.table ∧ r ≠ (io.slot which).toRegistration :=
  mem_iff_of_perm_cons (ioShrink_table h) (.of_map _ wf.regs)

/-- The cells when the last entry is moved to `which`. -/
theorem ioShrink_moved {which : Nat} (h : which ≠ io.fdcnt - 1) :
    let freed := Function.update io.cell (io.slot which).id none
    let last := (io.slot (io.fdcnt - 1)).id
    (ioShrink which io).cell =
      (if (freed last).isSome then Function.update freed last (some which) else freed) ∧
    (ioShrink which io).fault =
      (io.fault || (io.cell (io.slot which).id).isNone || (freed last).isNone) := by
  simp [ioShrink, Poll.freeCell, Poll.writeCell, h]

/-- The cells after an entry of a well-formed table is removed. -/
theorem Poll.WellFormed.shrink_cell (wf : io.WellFormed) {which : Nat} (h : which < io.fdcnt) :
    (ioShrink which io).fault = false ∧
    (ioShrink which io).cell =
      if which = io.fdcnt - 1 then Function.update io.cell (io.slot which).id none
      else Function.update (Function.update io.cell (io.slot which).id none)
        (io.slot (io.fdcnt - 1)).id (some which) := by
  have hcell := wf.cell which h
  by_cases hlast : which = io.fdcnt - 1
  · subst hlast
    simp [ioShrink, Poll.freeCell, hcell, wf.fault]
  · have hid : (io.slot (io.fdcnt - 1)).id ≠ (io.slot which).id := fun heq =>
      hlast (wf.index h (by omega) heq.symm)
    have hmoved := wf.cell (io.fdcnt - 1) (by omega)
    obtain ⟨hcells, hfault⟩ := ioShrink_moved hlast
    rw [hcells, hfault]
    simp [hlast, hcell, wf.fault, hid, hmoved]

theorem Poll.WellFormed.shrink (wf : io.WellFormed) {which : Nat} (h : which < io.fdcnt) :
    (ioShrink which io).WellFormed := by
  obtain ⟨hfault, hcell⟩ := wf.shrink_cell h
  have hperm := ioShrink_table h
  have hslot {i : Nat} (hi : i < io.fdcnt - 1) :
      (ioShrink which io).slot i = Function.update io.slot which (io.slot (io.fdcnt - 1)) i :=
    ioShrink_slot hi
  constructor
  case cell =>
    intro i hi
    rw [ioShrink_fdcnt] at hi
    rw [hcell, hslot hi]
    by_cases hlast : which = io.fdcnt - 1
    · have hne : i ≠ which := by omega
      have hid : (io.slot i).id ≠ (io.slot which).id := fun heq =>
        hne (wf.index (by omega) h heq)
      rw [if_pos hlast, Function.update_of_ne hne, Function.update_of_ne hid]
      exact wf.cell i (by omega)
    · rw [if_neg hlast]
      by_cases hne : i = which
      · rw [hne, Function.update_self, Function.update_self]
      · have hid : (io.slot i).id ≠ (io.slot which).id := fun heq =>
          hne (wf.index (by omega) h heq)
        have hid' : (io.slot i).id ≠ (io.slot (io.fdcnt - 1)).id := fun heq => by
          have := wf.index (by omega) (by omega) heq
          omega
        rw [Function.update_of_ne hne, Function.update_of_ne hid', Function.update_of_ne hid]
        exact wf.cell i (by omega)
  case owned =>
    intro p hp
    have hfind : ∃ i < io.fdcnt, (io.slot i).id = p ∧ i ≠ which := by
      rw [hcell] at hp
      by_cases hlast : which = io.fdcnt - 1
      · rw [if_pos hlast] at hp
        have hne : p ≠ (io.slot which).id := fun heq => by simp [heq] at hp
        rw [Function.update_of_ne hne] at hp
        obtain ⟨i, hi, hid⟩ := wf.owned p hp
        exact ⟨i, hi, hid, fun heq => hne (by rw [← hid, heq])⟩
      · rw [if_neg hlast] at hp
        by_cases hmoved : p = (io.slot (io.fdcnt - 1)).id
        · exact ⟨io.fdcnt - 1, by omega, hmoved.symm, fun heq => hlast heq.symm⟩
        · rw [Function.update_of_ne hmoved] at hp
          have hne : p ≠ (io.slot which).id := fun heq => by simp [heq] at hp
          rw [Function.update_of_ne hne] at hp
          obtain ⟨i, hi, hid⟩ := wf.owned p hp
          exact ⟨i, hi, hid, fun heq => hne (by rw [← hid, heq])⟩
    obtain ⟨i, hi, hid, hne⟩ := hfind
    rw [ioShrink_fdcnt]
    by_cases hlast : i = io.fdcnt - 1
    · refine ⟨which, by omega, ?_⟩
      rw [hslot (by omega), Function.update_self, ← hlast, hid]
    · refine ⟨i, by omega, ?_⟩
      rw [hslot (by omega), Function.update_of_ne hne, hid]
  case regs =>
    have := (hperm.map (·.reg)).nodup_iff.mpr wf.regs
    exact (List.nodup_cons.mp this).2
  case below =>
    intro r hr
    rw [ioShrink_registered]
    exact wf.below r (hperm.mem_iff.mp (List.mem_cons_of_mem _ hr))
  case fault => exact hfault

theorem cheopsIoAdd_slot {i : Nat} (h : i < io.fdcnt) (fd : Int) (callback : κ)
    (events data : Nat) (block : Option Nat) :
    (cheopsIoAdd fd callback events data block io).2.slot i = io.slot i := by
  cases block with
  | none => exact Function.update_of_ne (Nat.ne_of_lt h) _ _
  | some p => exact Function.update_of_ne (Nat.ne_of_lt h) _ _

/-- A new entry comes last; there is none when `malloc` fails. -/
theorem cheopsIoAdd_table (fd : Int) (callback : κ) (events data : Nat) (block : Option Nat)
    (io : Poll κ) :
    (cheopsIoAdd fd callback events data block io).2.table = io.table ++
      (block.map fun id => ⟨io.registered, fd, callback, events, data, id⟩).toList := by
  have hold : entries (fun i =>
      ((cheopsIoAdd fd callback events data block io).2.slot i).toRegistration) io.fdcnt =
      io.table :=
    entries_congr fun i hi => by rw [cheopsIoAdd_slot hi]
  cases block with
  | none => rw [← hold]; exact (List.append_nil _).symm
  | some p =>
    rw [← hold, Poll.table]
    simp only [cheopsIoAdd, entries_succ, Function.update_self, Option.map_some, Option.toList]

/-- `malloc` gives a block that is not in use. -/
theorem Poll.WellFormed.add (wf : io.WellFormed) {fd : Int} {callback : κ} {events data : Nat}
    {block : Option Nat} (fresh : ∀ p ∈ block, io.cell p = none) :
    (cheopsIoAdd fd callback events data block io).2.WellFormed := by
  have hslot {i : Nat} (h : i < io.fdcnt) := cheopsIoAdd_slot h fd callback events data block
  have htable := cheopsIoAdd_table fd callback events data block io
  cases block with
  | none =>
    rw [Option.map_none, Option.toList, List.append_nil] at htable
    exact {
      cell := fun i hi => by rw [hslot hi]; exact wf.cell i hi
      owned := fun p hp => by
        obtain ⟨i, hi, hid⟩ := wf.owned p hp
        exact ⟨i, hi, by rw [hslot hi, hid]⟩
      regs := by rw [htable]; exact wf.regs
      below := by rw [htable]; exact wf.below
      fault := wf.fault }
  | some p =>
    have fresh := fresh p rfl
    constructor
    case cell =>
      intro i hi
      simp only [cheopsIoAdd] at hi ⊢
      by_cases hnew : i = io.fdcnt
      · rw [hnew, Function.update_self, Function.update_self]
      · have hcell := wf.cell i (by omega)
        have hid : (io.slot i).id ≠ p := fun heq => by
          rw [heq, fresh] at hcell
          cases hcell
        rw [Function.update_of_ne hnew, Function.update_of_ne hid]
        exact hcell
    case owned =>
      intro q hq
      simp only [cheopsIoAdd] at hq ⊢
      by_cases hnew : q = p
      · exact ⟨io.fdcnt, by omega, by rw [Function.update_self, hnew]⟩
      · rw [Function.update_of_ne hnew] at hq
        obtain ⟨i, hi, hid⟩ := wf.owned q hq
        exact ⟨i, by omega, by rw [Function.update_of_ne (by omega), hid]⟩
    case regs =>
      rw [htable, List.map_append, List.nodup_append]
      refine ⟨wf.regs, by simp, ?_⟩
      simp only [Option.map_some, Option.toList, List.mem_map, List.map_cons, List.map_nil,
        List.mem_singleton]
      rintro _ ⟨r, hr, rfl⟩ _ rfl heq
      have := wf.below r hr
      omega
    case below =>
      intro r hr
      rw [htable, Option.map_some, Option.toList, List.mem_append, List.mem_singleton] at hr
      change r.reg < io.registered + 1
      rcases hr with hr | rfl
      · exact Nat.lt_succ_of_lt (wf.below r hr)
      · exact Nat.lt_succ_self _
    case fault => exact wf.fault

theorem polled_slot {i : Nat} (h : i < io.fdcnt) (revents : Nat → Nat) :
    ((io.polled revents).slot i).toRegistration = (io.slot i).toRegistration := by
  simp only [Poll.polled]
  rw [if_pos h]

@[simp] theorem polled_table (io : Poll κ) (revents : Nat → Nat) :
    (io.polled revents).table = io.table :=
  entries_congr fun i hi => polled_slot (show i < io.fdcnt from hi) revents

theorem Poll.WellFormed.polled (wf : io.WellFormed) (revents : Nat → Nat) :
    (io.polled revents).WellFormed where
  cell i hi := by
    have hslot := polled_slot (show i < io.fdcnt from hi) revents
    rw [congrArg Registration.id hslot]
    exact wf.cell i hi
  owned q hq := by
    obtain ⟨i, hi, hid⟩ := wf.owned q hq
    exact ⟨i, hi, by rw [congrArg Registration.id (polled_slot hi revents), hid]⟩
  regs := by
    rw [polled_table]
    exact wf.regs
  below := by
    rw [polled_table]
    exact wf.below
  fault := wf.fault

/-- A callback has returned 0: its entry is removed. -/
theorem Poll.WellFormed.settle_zero (wf : io.WellFormed) {x : Nat} (hx : x < io.fdcnt)
    (current : Int) :
    let io' := { settle x false io with currentIoc := current }
    io'.WellFormed ∧ ∀ r, r ∈ io'.table ↔ r ∈ io.table ∧ r ≠ (io.slot x).toRegistration :=
  ⟨(wf.shrink hx).remembered _ _, fun _ => mem_ioShrink_table wf hx⟩

/-- It has returned non-zero, and has not asked for its entry to be removed. -/
theorem settle_nonzero (h : io.removeCurrentIoc = false) (x : Nat) : settle x true io = io := by
  unfold settle
  rw [h]
  rfl

theorem ioTurn_ready (wf : io.WellFormed) {σ : Type}
    (invoke : Slot κ → Poll κ × σ → Bool × Poll κ × σ) (rest : σ) {x : Nat} (hx : x < io.fdcnt)
    (hready : (io.slot x).revents ≠ 0) :
    ioTurn invoke x (io, rest) = returned x (invoke (io.slot x) (io.calling x, rest)) := by
  unfold ioTurn
  dsimp only
  rw [if_neg hready, wf.cell x hx]

/-- Passing the id of an entry: it is removed, unless its index is that of the running one. -/
theorem Poll.WellFormed.remove_cases (wf : io.WellFormed) {i : Nat} (hi : i < io.fdcnt) :
    (io.currentIoc = i ∧
      (cheopsIoRemove (io.slot i).id io).2 = { io with removeCurrentIoc := true }) ∨
    (io.currentIoc ≠ i ∧ (cheopsIoRemove (io.slot i).id io).2 = ioShrink i io) := by
  unfold cheopsIoRemove
  rw [wf.cell i hi]
  dsimp only
  by_cases hcurrent : io.currentIoc = i
  · exact .inl ⟨hcurrent, by rw [if_pos hcurrent]⟩
  · exact .inr ⟨hcurrent, by rw [if_neg hcurrent, if_pos hi]⟩

/-- While no callback runs, an entry is removed by its id. -/
theorem Poll.WellFormed.remove_idle (wf : io.WellFormed) (hidle : io.currentIoc = -1)
    {r : Registration κ} (hr : r ∈ io.table) :
    (cheopsIoRemove r.id io).2.WellFormed ∧ (cheopsIoRemove r.id io).2.currentIoc = -1 ∧
      ∀ s, s ∈ (cheopsIoRemove r.id io).2.table ↔ s ∈ io.table ∧ s.id ≠ r.id := by
  obtain ⟨i, hi, rfl⟩ := mem_table.mp hr
  rcases wf.remove_cases hi with ⟨hcurrent, -⟩ | ⟨-, heq⟩
  · omega
  · rw [heq]
    refine ⟨wf.shrink hi, (ioShrink_currentIoc i io).trans hidle, fun s => ?_⟩
    rw [mem_ioShrink_table wf hi]
    refine and_congr_right fun hs => not_congr ⟨fun heq => by rw [heq], wf.id_inj hs hr⟩

@[simp] theorem cheopsIoAdd_fst (fd : Int) (callback : κ) (events data : Nat) (block : Option Nat)
    (io : Poll κ) : (cheopsIoAdd fd callback events data block io).1 = block := by
  cases block <;> rfl

theorem cheopsIoAdd_cell {q : Nat} (h : io.cell q = none) {block : Option Nat} (hq : q ∉ block)
    (fd : Int) (callback : κ) (events data : Nat) :
    (cheopsIoAdd fd callback events data block io).2.cell q = none := by
  cases block with
  | none => exact h
  | some p =>
    have hne : q ≠ p := fun heq => hq (by rw [heq]; rfl)
    exact (Function.update_of_ne hne _ _).trans h

/-! ## Growing tables -/

structure Poll.Grows (io io' : Poll κ) : Prop where
  fdcnt : io.fdcnt ≤ io'.fdcnt
  slot : ∀ i < io.fdcnt, io'.slot i = io.slot i
  current : io'.currentIoc = io.currentIoc
  remove : io'.removeCurrentIoc = io.removeCurrentIoc

theorem Poll.Grows.refl (io : Poll κ) : io.Grows io := ⟨Nat.le_refl _, fun _ _ => rfl, rfl, rfl⟩

theorem Poll.Grows.trans {io io' io'' : Poll κ} (h : io.Grows io') (h' : io'.Grows io'') :
    io.Grows io'' where
  fdcnt := Nat.le_trans h.fdcnt h'.fdcnt
  slot i hi := (h'.slot i (Nat.lt_of_lt_of_le hi h.fdcnt)).trans (h.slot i hi)
  current := h'.current.trans h.current
  remove := h'.remove.trans h.remove

theorem cheopsIoAdd_grows (fd : Int) (callback : κ) (events data : Nat) (block : Option Nat)
    (io : Poll κ) : io.Grows (cheopsIoAdd fd callback events data block io).2 := by
  refine ⟨?_, fun i hi => cheopsIoAdd_slot hi _ _ _ _ _, ?_, ?_⟩
  · cases block
    · exact Nat.le_refl _
    · exact Nat.le_succ _
  all_goals cases block <;> rfl

end Cheops.Io
