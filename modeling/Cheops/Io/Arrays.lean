import Cheops.Io.Basic
import Cheops.Lib.Run

/-! # The two arrays of the poll table (`io.c`)

Here `fds` and `ior` are arrays of their own, with the number of entries that each has been given
by `realloc`.  `Arrays.poll` is the table that the other parts use, where they are one array.

Between the calls of `cheops_io_wait` the arrays are a map: the id pointers are its keys, and what
has been registered under one stands at the index that its cell holds (`arrays_refine`).
-/

namespace Cheops.Io

open Cheops.Lib

variable {κ : Type}

/-! ## The arrays -/

def GROW_SHRINK_SIZE : Nat := 512

/-- `struct pollfd`. -/
structure PollFd where
  fd : Int
  events : Nat
  revents : Nat
deriving DecidableEq, Repr

/-- `struct io_rec`, with the ghost that numbers the registrations. -/
structure IoRec (κ : Type) where
  callback : κ
  data : Nat
  id : Nat
  reg : Nat
deriving DecidableEq, Repr

/-- The static variables of `io.c`, the id cells, and the ghosts.  `fdsRoom` and `iorRoom` are the
    entries that are allocated. -/
structure Arrays (κ : Type) where
  fds : Nat → PollFd
  ior : Nat → IoRec κ
  fdsRoom : Nat
  iorRoom : Nat
  fdcnt : Nat
  maxfdcnt : Nat
  currentIoc : Int
  removeCurrentIoc : Bool
  cell : Nat → Option Nat
  fault : Bool
  registered : Nat

namespace Arrays

def start (fds : Nat → PollFd) (ior : Nat → IoRec κ) : Arrays κ :=
  { fds, ior, fdsRoom := 0, iorRoom := 0, fdcnt := 0, maxfdcnt := 2 ^ 32 - 1, currentIoc := -1
    removeCurrentIoc := false, cell := fun _ => none, fault := false, registered := 0 }

/-- `io_grow`, which returns 0 for `true`.  The arguments are whether the calls of `realloc` find
    memory.  To ask for no bytes frees the block and returns `NULL`. -/
def ioGrow (iorGrows fdsGrows : Bool) (a : Arrays κ) : Bool × Arrays κ :=
  let maxfdcnt := (a.maxfdcnt + GROW_SHRINK_SIZE) % 2 ^ 32
  let room := (maxfdcnt + 1) % 2 ^ 32
  if room = 0 then (false, { a with iorRoom := 0 })
  else if !iorGrows then (false, a)
  else if !fdsGrows then (false, { a with iorRoom := room })
  else (true, { a with maxfdcnt, iorRoom := room, fdsRoom := room })

/-- What `cheops_io_add` does once there is room. -/
def append (fd : Int) (callback : κ) (events data : Nat) (block : Option Nat) (a : Arrays κ) :
    Option Nat × Arrays κ :=
  let a := { a with
    fds := Function.update a.fds a.fdcnt { fd, events, revents := 0 }
    ior := Function.update a.ior a.fdcnt
      { callback, data, id := block.getD 0, reg := a.registered } }
  match block with
  | none => (none, a)
  | some p =>
    (some p, { a with
      cell := Function.update a.cell p (some a.fdcnt)
      fdcnt := a.fdcnt + 1
      registered := a.registered + 1 })

/-- `cheops_io_add`; `block` is what `malloc` returns for the cell. -/
def cheopsIoAdd (fd : Int) (callback : κ) (events data : Nat) (iorGrows fdsGrows : Bool)
    (block : Option Nat) (a : Arrays κ) : Option Nat × Arrays κ :=
  if a.fdcnt < a.maxfdcnt then
    let (grown, a) := a.ioGrow iorGrows fdsGrows
    if grown then a.append fd callback events data block else (none, a)
  else a.append fd callback events data block

/-- What `cheops_io_change` does to the entry at an index. -/
def write (i : Nat) (fd : Int) (callback : Option κ) (events data : Nat) (a : Arrays κ) :
    Arrays κ :=
  let p := a.fds i
  let r := a.ior i
  { a with
    fds := Function.update a.fds i { p with
      fd := if fd > -1 then fd else p.fd
      events := if events ≠ 0 then events else p.events }
    ior := Function.update a.ior i { r with
      callback := callback.getD r.callback
      data := if data ≠ 0 then data else r.data } }

def cheopsIoChange (id : Nat) (fd : Int) (callback : Option κ) (events data : Nat)
    (a : Arrays κ) : Option Nat × Arrays κ :=
  match a.cell id with
  | none => (none, { a with fault := true })
  | some i =>
    if i < a.fdcnt then (some id, a.write i fd callback events data) else (none, a)

def ioShrink (which : Nat) (a : Arrays κ) : Arrays κ :=
  let a := { a with fdcnt := a.fdcnt - 1 }
  let p := (a.ior which).id
  let a := { a with
    cell := Function.update a.cell p none, fault := a.fault || (a.cell p).isNone }
  if which = a.fdcnt then a
  else
    let a := { a with
      fds := Function.update a.fds which (a.fds a.fdcnt)
      ior := Function.update a.ior which (a.ior a.fdcnt) }
    let p := (a.ior which).id
    { a with
      cell := if (a.cell p).isSome then Function.update a.cell p (some which) else a.cell
      fault := a.fault || (a.cell p).isNone }

def cheopsIoRemove (id : Nat) (a : Arrays κ) : Int × Arrays κ :=
  match a.cell id with
  | none => (-1, { a with fault := true })
  | some i =>
    if a.currentIoc = i then (-1, { a with removeCurrentIoc := true })
    else if i < a.fdcnt then (0, a.ioShrink i)
    else (-1, a)

/-! ## The arrays are the poll table -/

def join (p : PollFd) (r : IoRec κ) : Slot κ :=
  { reg := r.reg, fd := p.fd, callback := r.callback, events := p.events, data := r.data, id := r.id
    revents := p.revents }

def zip (fds : Nat → PollFd) (ior : Nat → IoRec κ) (i : Nat) : Slot κ := join (fds i) (ior i)

def poll (a : Arrays κ) : Poll κ :=
  { slot := zip a.fds a.ior, fdcnt := a.fdcnt, currentIoc := a.currentIoc
    removeCurrentIoc := a.removeCurrentIoc, cell := a.cell, fault := a.fault
    registered := a.registered }

variable {a : Arrays κ}

@[simp] theorem zip_update (fds : Nat → PollFd) (ior : Nat → IoRec κ) (i : Nat) (p : PollFd)
    (r : IoRec κ) : zip (Function.update fds i p) (Function.update ior i r) =
      Function.update (zip fds ior) i (join p r) := by
  funext j
  by_cases here : j = i
  case pos =>
    subst here
    simp [zip]
  case neg => simp [zip, here]

theorem poll_ioGrow (iorGrows fdsGrows : Bool) (a : Arrays κ) :
    (a.ioGrow iorGrows fdsGrows).2.poll = a.poll := by
  unfold ioGrow
  generalize (a.maxfdcnt + GROW_SHRINK_SIZE) % 2 ^ 32 = maxfdcnt
  dsimp only
  generalize (maxfdcnt + 1) % 2 ^ 32 = room
  split_ifs <;> rfl

theorem poll_append (fd : Int) (callback : κ) (events data : Nat) (block : Option Nat)
    (a : Arrays κ) :
    ((a.append fd callback events data block).1, (a.append fd callback events data block).2.poll) =
      Io.cheopsIoAdd fd callback events data block a.poll := by
  cases block with
  | none =>
    simp only [append, poll, zip_update]
    rfl
  | some p =>
    simp only [append, poll, zip_update]
    rfl

theorem poll_ioShrink (which : Nat) (a : Arrays κ) :
    (a.ioShrink which).poll = Io.ioShrink which a.poll := by
  unfold ioShrink Io.ioShrink
  by_cases last : which = a.fdcnt - 1
  case pos =>
    simp only [last, poll, Poll.freeCell, if_true]
    rfl
  case neg =>
    simp only [last, poll, Poll.freeCell, Poll.writeCell, if_false, zip_update]
    simp [zip, join]

theorem poll_cheopsIoRemove (id : Nat) (a : Arrays κ) :
    ((a.cheopsIoRemove id).1, (a.cheopsIoRemove id).2.poll) = Io.cheopsIoRemove id a.poll := by
  unfold cheopsIoRemove Io.cheopsIoRemove
  rw [show a.poll.cell id = a.cell id from rfl]
  cases a.cell id with
  | none => rfl
  | some i =>
    dsimp only
    by_cases current : a.currentIoc = i
    case pos =>
      rw [if_pos current, if_pos (show a.poll.currentIoc = i from current)]
      rfl
    case neg =>
      rw [if_neg current, if_neg (show ¬ a.poll.currentIoc = i from current)]
      by_cases below : i < a.fdcnt
      case pos =>
        rw [if_pos below, if_pos (show i < a.poll.fdcnt from below), poll_ioShrink]
      case neg =>
        rw [if_neg below, if_neg (show ¬ i < a.poll.fdcnt from below)]

/-! ## The map -/

structure Watch (κ : Type) where
  fd : Int
  callback : κ
  events : Nat
  data : Nat
deriving DecidableEq, Repr

abbrev IoMap (κ : Type) := Nat → Option (Watch κ)

inductive Op (κ : Type) where
  | add (fd : Int) (callback : κ) (events data : Nat) (iorGrows fdsGrows : Bool)
      (block : Option Nat)
  | change (id : Nat) (fd : Int) (callback : Option κ) (events data : Nat)
  | remove (id : Nat)
deriving DecidableEq, Repr

def exec (a : Arrays κ) : Op κ → Arrays κ
  | .add fd callback events data iorGrows fdsGrows block =>
    (a.cheopsIoAdd fd callback events data iorGrows fdsGrows block).2
  | .change id fd callback events data => (a.cheopsIoChange id fd callback events data).2
  | .remove id => (a.cheopsIoRemove id).2

def Watch.change (w : Watch κ) (fd : Int) (callback : Option κ) (events data : Nat) : Watch κ where
  fd := if fd > -1 then fd else w.fd
  callback := callback.getD w.callback
  events := if events ≠ 0 then events else w.events
  data := if data ≠ 0 then data else w.data

def apply (m : IoMap κ) : Op κ → IoMap κ
  | .add fd callback events data _ _ block =>
    match block with
    | none => m
    | some p => Function.update m p (some { fd, callback, events, data })
  | .change id fd callback events data =>
    Function.update m id ((m id).map (·.change fd callback events data))
  | .remove id => Function.update m id none

/-- Every allocation of `cheops_io_add` succeeds, with a block that is not in use, and the other
    calls are made with the pointer of a registration. -/
def Callable (a : Arrays κ) (m : IoMap κ) : Op κ → Prop
  | .add _ _ _ _ iorGrows fdsGrows block =>
    (a.fdcnt < a.maxfdcnt → (a.ioGrow iorGrows fdsGrows).1 = true) ∧
      ∃ p, block = some p ∧ a.cell p = none
  | .change id .. => m id ≠ none
  | .remove id => m id ≠ none

def Succeeds (a : Arrays κ) : Op κ → Prop
  | .add fd callback events data iorGrows fdsGrows block =>
    (a.cheopsIoAdd fd callback events data iorGrows fdsGrows block).1 = block
  | .change id fd callback events data =>
    (a.cheopsIoChange id fd callback events data).1 = some id
  | .remove id => (a.cheopsIoRemove id).1 = 0

def Step (s : Arrays κ × IoMap κ) (op : Op κ) (s' : Arrays κ × IoMap κ) : Prop :=
  Callable s.1 s.2 op ∧ s' = (exec s.1 op, apply s.2 op)

def watch (a : Arrays κ) (i : Nat) : Watch κ where
  fd := (a.fds i).fd
  callback := (a.ior i).callback
  events := (a.fds i).events
  data := (a.ior i).data

/-- The arrays hold the map. -/
structure Refines (a : Arrays κ) (m : IoMap κ) : Prop where
  /-- The cell of a registration holds the index of its entry in both arrays. -/
  index : ∀ p w, m p = some w →
    ∃ i < a.fdcnt, a.cell p = some i ∧ (a.ior i).id = p ∧ a.watch i = w
  /-- Every entry is one of a registration, and of a different one. -/
  covered : ∀ i < a.fdcnt, m (a.ior i).id ≠ none
  distinct : ∀ i < a.fdcnt, ∀ j < a.fdcnt, (a.ior i).id = (a.ior j).id → i = j
  /-- No other cell is allocated. -/
  cells : ∀ p, a.cell p ≠ none → m p ≠ none
  fault : a.fault = false

/-! ## The arrays refine the map -/

def held (io : Poll κ) : IoMap κ := fun p =>
  (io.cell p).map fun i =>
    { fd := (io.slot i).fd, callback := (io.slot i).callback, events := (io.slot i).events
      data := (io.slot i).data }

section Held

variable {io : Poll κ}

/-- Cells hold the indices of entries. -/
theorem below_of_cell (wf : io.WellFormed) {p i : Nat} (cell : io.cell p = some i) :
    i < io.fdcnt ∧ (io.slot i).id = p := by
  obtain ⟨j, inside, id⟩ := wf.owned p (by simp [cell])
  have same : io.cell p = some j := by
    rw [← id]
    exact wf.cell j inside
  rw [cell, Option.some.injEq] at same
  subst same
  exact ⟨inside, id⟩

theorem held_add (wf : io.WellFormed) (fd : Int) (callback : κ) (events data p : Nat) :
    held (Io.cheopsIoAdd fd callback events data (some p) io).2 =
      Function.update (held io) p (some { fd, callback, events, data }) := by
  funext q
  by_cases new : q = p
  case pos =>
    subst new
    simp [held, Io.cheopsIoAdd]
  case neg =>
    rw [Function.update_of_ne new]
    simp only [held, Io.cheopsIoAdd]
    rw [Function.update_of_ne new]
    apply Option.map_congr
    intro i cell
    rw [Function.update_of_ne (Nat.ne_of_lt (below_of_cell wf cell).1)]

theorem held_shrink (wf : io.WellFormed) {which : Nat} (inside : which < io.fdcnt) :
    held (Io.ioShrink which io) = Function.update (held io) (io.slot which).id none := by
  obtain ⟨-, cells⟩ := wf.shrink_cell inside
  funext q
  by_cases gone : q = (io.slot which).id
  case pos =>
    have freed : (Io.ioShrink which io).cell q = none := by
      rw [cells, gone]
      split
      next => exact Function.update_self ..
      next moved =>
        rw [Function.update_of_ne, Function.update_self]
        intro same
        have := wf.index inside (by omega) same
        omega
    rw [gone, Function.update_self, ← gone, held, freed, Option.map_none]
  case neg =>
    rw [Function.update_of_ne gone, held, held, cells]
    -- another id; its entry is where it was, unless it is the last one
    by_cases last : which = io.fdcnt - 1
    case pos =>
      rw [if_pos last, Function.update_of_ne gone]
      apply Option.map_congr
      intro i cell
      obtain ⟨below, id⟩ := below_of_cell wf cell
      have other : i ≠ which := by
        rintro rfl
        exact gone id.symm
      rw [ioShrink_slot (by omega), Function.update_of_ne other]
    case neg =>
      rw [if_neg last]
      by_cases moved : q = (io.slot (io.fdcnt - 1)).id
      case pos =>
        rw [moved, Function.update_self, wf.cell _ (by omega), Option.map_some, Option.map_some,
          ioShrink_slot (by omega), Function.update_self]
      case neg =>
        rw [Function.update_of_ne moved, Function.update_of_ne gone]
        apply Option.map_congr
        intro i cell
        obtain ⟨below, id⟩ := below_of_cell wf cell
        have other : i ≠ which := by
          rintro rfl
          exact gone id.symm
        have before : i ≠ io.fdcnt - 1 := by
          rintro rfl
          exact moved id.symm
        rw [ioShrink_slot (by omega), Function.update_of_ne other]

end Held

variable {m : IoMap κ}

structure Inv (a : Arrays κ) (m : IoMap κ) : Prop where
  wf : a.poll.WellFormed
  idle : a.currentIoc = -1
  held : held a.poll = m

theorem Inv.refines (inv : Inv a m) : Refines a m where
  index p w registered := by
    rw [← inv.held, Arrays.held, Option.map_eq_some_iff] at registered
    obtain ⟨i, cell, rfl⟩ := registered
    obtain ⟨inside, id⟩ := below_of_cell inv.wf cell
    exact ⟨i, inside, cell, id, rfl⟩
  covered i inside := by
    have cell : a.poll.cell (a.ior i).id = some i := inv.wf.cell i inside
    rw [← inv.held, Arrays.held, cell]
    exact Option.some_ne_none _
  distinct i inside j inside' same := inv.wf.index inside inside' same
  cells p allocated := by
    rw [← inv.held, Arrays.held, Ne, Option.map_eq_none_iff]
    exact allocated
  fault := inv.wf.fault

/-- A registration has an entry. -/
theorem Inv.entry {id : Nat} (inv : Inv a m) (registered : m id ≠ none) :
    ∃ i < a.fdcnt, a.cell id = some i ∧ (a.ior i).id = id := by
  obtain ⟨w, same⟩ := Option.ne_none_iff_exists'.mp registered
  obtain ⟨i, inside, cell, own, -⟩ := inv.refines.index id w same
  exact ⟨i, inside, cell, own⟩

theorem start_inv (fds : Nat → PollFd) (ior : Nat → IoRec κ) :
    Inv (start fds ior) fun _ => none where
  wf := .start (zip fds ior)
  idle := rfl
  held := rfl

/-- Where its allocations succeed, `cheops_io_add` does what the other parts take it to do. -/
theorem poll_cheopsIoAdd {fd : Int} {callback : κ} {events data : Nat} {iorGrows fdsGrows : Bool}
    {block : Option Nat}
    (grows : a.fdcnt < a.maxfdcnt → (a.ioGrow iorGrows fdsGrows).1 = true) :
    let r := a.cheopsIoAdd fd callback events data iorGrows fdsGrows block
    (r.1, r.2.poll) = Io.cheopsIoAdd fd callback events data block a.poll := by
  dsimp only
  unfold cheopsIoAdd
  by_cases full : a.fdcnt < a.maxfdcnt
  case neg =>
    rw [if_neg full]
    exact poll_append fd callback events data block a
  case pos =>
    rw [if_pos full]
    dsimp only
    rw [if_pos (grows full), poll_append, poll_ioGrow]

theorem Inv.add {fd : Int} {callback : κ} {events data : Nat} {iorGrows fdsGrows : Bool}
    {block : Option Nat} (inv : Inv a m)
    (callable : Callable a m (.add fd callback events data iorGrows fdsGrows block)) :
    let op : Op κ := .add fd callback events data iorGrows fdsGrows block
    Inv (exec a op) (apply m op) ∧ Succeeds a op := by
  obtain ⟨grows, p, rfl, fresh⟩ := callable
  have both : (_, _) = Io.cheopsIoAdd fd callback events data (some p) a.poll :=
    poll_cheopsIoAdd grows
  have returned := congrArg Prod.fst both
  have table := congrArg Prod.snd both
  dsimp only at returned table
  refine ⟨⟨?_, ?_, ?_⟩, ?_⟩
  · rw [exec, table]
    apply inv.wf.add
    rintro q ⟨rfl⟩
    exact fresh
  · have current := congrArg Poll.currentIoc table
    exact current.trans inv.idle
  · rw [exec, table, held_add inv.wf, inv.held]
    rfl
  · exact returned

theorem Inv.remove {id : Nat} (inv : Inv a m) (registered : m id ≠ none) :
    Inv (exec a (.remove id)) (apply m (.remove id)) ∧ Succeeds a (.remove id) := by
  obtain ⟨i, inside, cell, own⟩ := inv.entry registered
  have removed : a.cheopsIoRemove id = (0, a.ioShrink i) := by
    unfold cheopsIoRemove
    rw [cell]
    dsimp only
    rw [if_neg (by rw [inv.idle]; omega), if_pos inside]
  refine ⟨⟨?_, ?_, ?_⟩, ?_⟩
  · rw [exec, removed, poll_ioShrink]
    exact inv.wf.shrink inside
  · have current := congrArg Poll.currentIoc (poll_ioShrink i a)
    rw [ioShrink_currentIoc] at current
    rw [exec, removed]
    exact current.trans inv.idle
  · rw [exec, removed, poll_ioShrink, held_shrink inv.wf inside, inv.held]
    exact congrArg (Function.update m · none) own
  · rw [Succeeds, removed]

/-- A write to fields that do not name the entry. -/
theorem wf_write (wf : a.poll.WellFormed) (i : Nat) (fd : Int) (callback : Option κ)
    (events data : Nat) : (a.write i fd callback events data).poll.WellFormed := by
  have ids : ∀ j, (zip (a.write i fd callback events data).fds
      (a.write i fd callback events data).ior j).id = (a.ior j).id ∧
      (zip (a.write i fd callback events data).fds
        (a.write i fd callback events data).ior j).reg = (a.ior j).reg := by
    intro j
    rw [write, zip_update]
    by_cases here : j = i
    case pos =>
      subst here
      simp [join]
    case neg =>
      rw [Function.update_of_ne here]
      exact ⟨rfl, rfl⟩
  have regs : (a.write i fd callback events data).poll.table.map (·.reg) =
      a.poll.table.map (·.reg) := by
    rw [Poll.table, Poll.table, entries, entries, List.map_map, List.map_map]
    exact List.map_congr_left fun j _ => (ids j).2
  constructor
  case cell =>
    intro j inside
    rw [show ((a.write i fd callback events data).poll.slot j).id = (a.ior j).id from (ids j).1]
    exact wf.cell j inside
  case owned =>
    intro p allocated
    obtain ⟨j, inside, id⟩ := wf.owned p allocated
    exact ⟨j, inside, (ids j).1.trans id⟩
  case regs =>
    rw [regs]
    exact wf.regs
  case below =>
    intro r member
    have member' := List.mem_map_of_mem (f := (·.reg)) member
    rw [regs] at member'
    obtain ⟨r', member', same⟩ := List.mem_map.mp member'
    rw [← same]
    exact wf.below r' member'
  case fault => exact wf.fault

theorem Inv.change {id : Nat} {fd : Int} {callback : Option κ} {events data : Nat}
    (inv : Inv a m) (registered : m id ≠ none) :
    let op : Op κ := .change id fd callback events data
    Inv (exec a op) (apply m op) ∧ Succeeds a op := by
  obtain ⟨i, inside, cell, own⟩ := inv.entry registered
  have changed : a.cheopsIoChange id fd callback events data =
      (some id, a.write i fd callback events data) := by
    unfold cheopsIoChange
    rw [cell]
    exact if_pos inside
  refine ⟨⟨?_, ?_, ?_⟩, ?_⟩
  · rw [exec, changed]
    exact wf_write inv.wf i fd callback events data
  · rw [exec, changed]
    exact inv.idle
  · rw [exec, changed, apply, ← inv.held]
    funext q
    simp only [Arrays.held, poll, write, zip_update]
    -- the cell of `id` leads to the entry that is written, other cells to other entries
    by_cases here : q = id
    case pos =>
      subst here
      simp [cell, join, Watch.change, zip]
    case neg =>
      rw [Function.update_of_ne here]
      apply Option.map_congr
      intro j cell'
      have other : j ≠ i := by
        rintro rfl
        have same := (below_of_cell inv.wf cell').2
        exact here (same.symm.trans own)
      rw [Function.update_of_ne other]
  · rw [Succeeds, changed]

theorem Inv.step {op : Op κ} (inv : Inv a m) (callable : Callable a m op) :
    Inv (exec a op) (apply m op) ∧ Succeeds a op := by
  cases op with
  | add => exact inv.add callable
  | change => exact inv.change callable
  | remove => exact inv.remove callable

/-- Whatever calls are made outside of callbacks, the arrays hold the map that they are for, and
    the next call succeeds. -/
theorem arrays_refine {fds : Nat → PollFd} {ior : Nat → IoRec κ} {ops : List (Op κ)}
    (run : Run Step (start fds ior, fun _ => none) ops (a, m)) :
    Refines a m ∧ ∀ op, Callable a m op → Succeeds a op := by
  have inv : Inv a m := by
    apply run.state_invariant (I := fun s => Inv s.1 s.2) (start_inv fds ior)
    rintro s op s' inv ⟨callable, rfl⟩
    exact (inv.step callable).1
  exact ⟨inv.refines, fun op callable => (inv.step callable).2⟩

def movedOps : List (Op Unit) :=
  [.add 5 () 1 50 true true (some 100), .add 6 () 1 60 true true (some 101),
    .change 101 9 none 0 70, .remove 100]

def movedArrays : Arrays Unit × IoMap Unit :=
  movedOps.foldl (fun s op => (exec s.1 op, apply s.2 op))
    (start (fun _ => ⟨0, 0, 0⟩) (fun _ => ⟨(), 0, 0, 0⟩), fun _ => none)

theorem arrays_refine_moved :
    (Refines movedArrays.1 movedArrays.2 ∧
      ∀ op, Callable movedArrays.1 movedArrays.2 op → Succeeds movedArrays.1 op) ∧
      movedArrays.2 100 = none ∧ movedArrays.2 101 = some ⟨9, (), 1, 70⟩ ∧
      movedArrays.1.cell 101 = some 0 := by
  have run : Run Step (start (fun _ => ⟨0, 0, 0⟩) (fun _ => ⟨(), 0, 0, 0⟩), fun _ => none)
      movedOps (movedArrays.1, movedArrays.2) := by
    apply Run.cons ⟨⟨fun _ => by decide, 100, rfl, by decide⟩, rfl⟩
    apply Run.cons ⟨⟨fun _ => by decide, 101, rfl, by decide⟩, rfl⟩
    apply Run.cons ⟨show _ ≠ _ by decide, rfl⟩
    exact Run.single ⟨show _ ≠ _ by decide, rfl⟩
  exact ⟨arrays_refine run, by decide, by decide, by decide⟩

end Arrays

end Cheops.Io
