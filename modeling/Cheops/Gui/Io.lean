import Cheops.Lib.Run
import Cheops.Lib.Segment

/-! # The I/O layer of the GUI (`gui-io.c`)

A registration is a record in a linked list, and GDK calls `gtk_cheops_io_std_callback` with the
record's address.  The loop looks the record up, runs its callback, and goes on from the same
record, which the callback may have freed in the meantime.

`gtkCheopsIoStdCallback_iff` says that this is the only way in which a delivery goes wrong.
-/

namespace Cheops.Gui

open Cheops.Lib

/-! ## Registrations -/

/-- What a caller of `cheops_io_add` has registered.  `reg` is a ghost that numbers the
    registrations. -/
structure Registration (κ : Type) where
  reg : Nat
  fd : Int
  callback : Option κ
  events : Int
  data : Nat
  id : Nat
deriving DecidableEq, Repr

/-- `struct gtk_cheops_list`. -/
structure GtkCheopsList (κ : Type) extends Registration κ where
  next : Option Nat
deriving DecidableEq, Repr

/-- The records that are allocated, and the static `list`.  The ghost `made` has all registrations
    that have been made. -/
structure GuiIo (κ : Type) where
  heap : Nat → Option (GtkCheopsList κ)
  list : Option Nat
  made : List (Registration κ)

variable {κ σ : Type}

def GuiIo.start : GuiIo κ := { heap := fun _ => none, list := none, made := [] }

/-- `cheops_io_add`; `block` is what `malloc` returns, and `id` what `gdk_input_add` does. -/
def guiIoAdd (fd : Int) (callback : Option κ) (events : Int) (data block id : Nat)
    (io : GuiIo κ) : GuiIo κ :=
  let l : Registration κ := { reg := io.made.length, fd, callback, events, data, id }
  { heap := Function.update io.heap block (some { l with next := io.list })
    list := some block
    made := io.made ++ [l] }

/-- The loop of `cheops_io_remove`.  It fails if it reads or writes what is not allocated, or is
    longer than `fuel`. -/
def guiIoRemoveLoop (id : Nat) : Nat → Option Nat → Option Nat → GuiIo κ → Option (Int × GuiIo κ)
  | _, _, none, io => some (-1, io)
  | 0, _, some _, _ => none
  | fuel + 1, prev, some l, io => do
    let entry ← io.heap l
    if id = entry.id then
      let io ← match prev with
        | none => some { io with list := entry.next }
        | some prev => (io.heap prev).map fun p =>
            { io with heap := Function.update io.heap prev (some { p with next := entry.next }) }
      some (0, { io with heap := Function.update io.heap l none })
    else guiIoRemoveLoop id fuel (some l) entry.next io

/-- `cheops_io_remove`. -/
def guiIoRemove (fuel id : Nat) (io : GuiIo κ) : Option (Int × GuiIo κ) :=
  guiIoRemoveLoop id fuel none io.list io

/-! ## Deliveries -/

/-- The loop of `gtk_cheops_io_std_callback` from `p` on, for a program that consists of the
    registrations and the rest `σ`; `invoke` runs a callback on it.  The result tells which
    callbacks have been invoked, with what, and in which state. -/
def stdCallbackLoop (invoke : Registration κ → GuiIo κ × σ → GuiIo κ × σ) (data : Nat) :
    Nat → Option Nat → GuiIo κ × σ → Option (List (Registration κ × GuiIo κ) × GuiIo κ × σ)
  | _, none, prog => some ([], prog)
  | 0, some _, _ => none
  | fuel + 1, some p, prog => do
    let (log, prog) ←
      if p = data then do
        let entry ← prog.1.heap p
        if entry.callback.isSome then
          some ([(entry.toRegistration, prog.1)], invoke entry.toRegistration prog)
        else some ([], prog)
      else some ([], prog)
    -- `p=p->next`, after the callback has returned
    let entry ← prog.1.heap p
    let (log', prog) ← stdCallbackLoop invoke data fuel entry.next prog
    some (log ++ log', prog)

def gtkCheopsIoStdCallback (invoke : Registration κ → GuiIo κ × σ → GuiIo κ × σ) (fuel data : Nat)
    (prog : GuiIo κ × σ) : Option (List (Registration κ × GuiIo κ) × GuiIo κ × σ) :=
  stdCallbackLoop invoke data fuel prog.1.list prog

/-! ## What may happen to the registrations -/

inductive IoAction (κ : Type) where
  | add (fd : Int) (callback : Option κ) (events : Int) (data block id : Nat)
  | remove (id : Nat)
deriving DecidableEq, Repr

/-- `malloc` returns memory that is not in use. -/
inductive Acts : GuiIo κ → IoAction κ → GuiIo κ → Prop
  | add {io fd callback events data block id} (free : io.heap block = none) :
      Acts io (.add fd callback events data block id)
        (guiIoAdd fd callback events data block id io)
  | remove {io io' id fuel ret} (returns : guiIoRemove fuel id io = some (ret, io')) :
      Acts io (.remove id) io'

def GuiIo.Registered (io : GuiIo κ) (r : Registration κ) : Prop :=
  io.made[r.reg]? = some r ∧
    ∃ xs, Seg io.heap GtkCheopsList.next io.list xs none ∧
      ∃ x ∈ xs, (io.heap x).map GtkCheopsList.toRegistration = some r

/-- No callback is invoked twice, and each with what has been registered for it and is still. -/
structure Deliveries (log : List (Registration κ × GuiIo κ)) : Prop where
  once : (log.map fun e => e.1.reg).Nodup
  own : ∀ e ∈ log, e.2.Registered e.1

/-! ## The list -/

section Linked

variable {io io' : GuiIo κ} {xs : List Nat} {a : IoAction κ}

structure Linked (io : GuiIo κ) (xs : List Nat) : Prop where
  seg : Seg io.heap GtkCheopsList.next io.list xs none
  all : ∀ x, (io.heap x).isSome → x ∈ xs
  made : ∀ x l, io.heap x = some l → io.made[l.reg]? = some l.toRegistration

theorem linked_start : Linked (GuiIo.start : GuiIo κ) [] :=
  ⟨rfl, (fun _ allocated => by cases allocated), fun _ _ allocated => by cases allocated⟩

theorem Linked.registered (linked : Linked io xs) {x : Nat} {l : GtkCheopsList κ}
    (allocated : io.heap x = some l) : io.Registered l.toRegistration :=
  ⟨linked.made x l allocated, xs, linked.seg, x, linked.all x (by rw [allocated]; rfl),
    by rw [allocated]; rfl⟩

theorem Linked.add (linked : Linked io xs) {fd events : Int} {callback : Option κ}
    {data block id : Nat} (free : io.heap block = none) :
    Linked (guiIoAdd fd callback events data block id io) (block :: xs) := by
  refine ⟨⟨rfl, _, Function.update_self .., ?_⟩, fun x allocated => ?_, fun x l allocated => ?_⟩
  · exact linked.seg.update (linked.seg.fresh free) _
  · by_cases new : x = block
    case pos => exact new ▸ List.mem_cons_self
    case neg =>
      have before : (io.heap x).isSome := by
        simpa only [guiIoAdd, Function.update_of_ne new] using allocated
      exact List.mem_cons_of_mem _ (linked.all x before)
  · by_cases new : x = block
    case pos =>
      subst new
      simp only [guiIoAdd, Function.update_self, Option.some.injEq] at allocated
      subst allocated
      simp [guiIoAdd]
    case neg =>
      simp only [guiIoAdd, Function.update_of_ne new] at allocated
      have old := linked.made x l allocated
      have bound := (List.getElem?_eq_some_iff.mp old).1
      rw [guiIoAdd, List.getElem?_append_left bound]
      exact old

/-- The first record is taken out of the list. -/
theorem Linked.removeHead {l : Nat} {entry : GtkCheopsList κ} (linked : Linked io (l :: xs))
    (here : io.heap l = some entry) :
    Linked { io with list := entry.next, heap := Function.update io.heap l none } xs := by
  obtain ⟨-, entry', here', rest⟩ := linked.seg
  cases here.symm.trans here'
  have fresh := (List.nodup_cons.mp linked.seg.nodup).1
  refine ⟨rest.update fresh none, fun x allocated => ?_, fun x a allocated => ?_⟩
  · by_cases gone : x = l
    case pos => simp [gone] at allocated
    case neg =>
      dsimp only at allocated
      rw [Function.update_of_ne gone] at allocated
      exact (List.mem_cons.mp (linked.all x allocated)).resolve_left gone
  · by_cases gone : x = l
    case pos => simp [gone] at allocated
    case neg =>
      dsimp only at allocated
      rw [Function.update_of_ne gone] at allocated
      exact linked.made x a allocated

/-- A record behind another one is taken out of the list. -/
theorem Linked.removeBehind {front back : List Nat} {y l : Nat} {entry p : GtkCheopsList κ}
    (linked : Linked io (front ++ y :: l :: back)) (here : io.heap l = some entry)
    (before : io.heap y = some p) :
    Linked { io with
      heap := Function.update (Function.update io.heap y (some { p with next := entry.next })) l
        none } (front ++ y :: back) := by
  have nodup := linked.seg.nodup
  simp only [List.nodup_append, List.nodup_cons, List.mem_cons, not_or] at nodup
  obtain ⟨-, ⟨⟨apart, y_back⟩, l_back, -⟩, disjoint⟩ := nodup
  have others (x : Nat) (gone : x ≠ l) (other : x ≠ y) :
      Function.update (Function.update io.heap y (some { p with next := entry.next })) l none x =
        io.heap x := by
    rw [Function.update_of_ne gone, Function.update_of_ne other]
  have edited : Function.update (Function.update io.heap y (some { p with next := entry.next })) l
      none y = some { p with next := entry.next } := by
    rw [Function.update_of_ne apart, Function.update_self]
  refine ⟨linked.seg.unlink here edited rfl fun z member a allocated => ⟨a, ?_, rfl⟩,
    fun x allocated => ?_, fun x a allocated => ?_⟩
  · rcases List.mem_append.mp member with early | late
    · dsimp only
      rw [others z (disjoint z early l (by simp)) (disjoint z early y (by simp)), allocated]
    · have gone : z ≠ l := by
        rintro rfl
        exact l_back late
      have other : z ≠ y := by
        rintro rfl
        exact y_back late
      dsimp only
      rw [others z gone other, allocated]
  · by_cases gone : x = l
    case pos => simp [gone] at allocated
    case neg =>
      by_cases other : x = y
      case pos => simp [other]
      case neg =>
        dsimp only at allocated
        rw [others x gone other] at allocated
        have member := linked.all x allocated
        simp only [List.mem_append, List.mem_cons, gone, other, false_or] at member ⊢
        exact member
  · by_cases gone : x = l
    case pos => simp [gone] at allocated
    case neg =>
      by_cases other : x = y
      case pos =>
        subst other
        dsimp only at allocated
        rw [edited] at allocated
        cases allocated
        exact linked.made x p before
      case neg =>
        dsimp only at allocated
        rw [others x gone other] at allocated
        exact linked.made x a allocated

theorem guiIoRemoveLoop_linked {id fuel : Nat} (front back : List Nat) {ret : Int}
    (linked : Linked io (front ++ back))
    (returns : guiIoRemoveLoop id fuel front.getLast? back.head? io = some (ret, io')) :
    ∃ ys, Linked io' ys := by
  induction fuel generalizing front back with
  | zero =>
    cases back with
    | nil =>
      cases returns
      exact ⟨_, linked⟩
    | cons l back => cases returns
  | succ fuel ih =>
    cases back with
    | nil =>
      cases returns
      exact ⟨_, linked⟩
    | cons l back =>
      obtain ⟨_, -, -, entry, here, rest⟩ := Seg.append_iff.mp linked.seg
      simp only [List.head?_cons, guiIoRemoveLoop, here, bind, Option.bind_some] at returns
      split at returns
      case isTrue =>
        rcases List.eq_nil_or_concat front with rfl | ⟨front, y, rfl⟩
        · simp only [List.getLast?_nil, Option.some.injEq, Prod.mk.injEq] at returns
          obtain ⟨-, rfl⟩ := returns
          exact ⟨back, linked.removeHead here⟩
        · rw [List.concat_eq_append] at linked returns
          rw [List.append_assoc, List.singleton_append] at linked
          obtain ⟨p, before⟩ := linked.seg.allocated y (by simp)
          simp only [List.getLast?_concat, before, Option.map_some, Option.bind_some,
            Option.some.injEq, Prod.mk.injEq] at returns
          obtain ⟨-, rfl⟩ := returns
          exact ⟨front ++ y :: back, linked.removeBehind here before⟩
      case isFalse =>
        rw [rest.eq_head?] at returns
        refine ih (front ++ [l]) back (by simpa using linked) ?_
        rw [List.getLast?_concat]
        exact returns

theorem Linked.acts (linked : Linked io xs) (acts : Acts io a io') : ∃ ys, Linked io' ys := by
  cases acts with
  | add free => exact ⟨_, linked.add free⟩
  | remove returns =>
    rw [guiIoRemove, linked.seg.eq_head?] at returns
    exact guiIoRemoveLoop_linked [] xs linked returns

theorem Linked.run {as : List (IoAction κ)} (linked : Linked io xs) (run : Run Acts io as io') :
    ∃ ys, Linked io' ys :=
  run.state_invariant (I := fun io => ∃ ys, Linked io ys) ⟨xs, linked⟩
    fun _ _ _ ⟨_, linked⟩ acts => linked.acts acts

end Linked

/-! ## The loop -/

section Loop

variable {invoke : Registration κ → GuiIo κ × σ → GuiIo κ × σ} {data : Nat} {prog : GuiIo κ × σ}
  {p q : Option Nat} {xs : List Nat}

/-- Past other records the loop does nothing. -/
theorem stdCallbackLoop_skip (invoke : Registration κ → GuiIo κ × σ → GuiIo κ × σ)
    (seg : Seg prog.1.heap GtkCheopsList.next p xs q) (others : data ∉ xs) (fuel : Nat) :
    stdCallbackLoop invoke data (xs.length + fuel) p prog =
      stdCallbackLoop invoke data fuel q prog := by
  induction xs generalizing p with
  | nil =>
    obtain rfl : p = q := seg
    rw [List.length_nil, Nat.zero_add]
  | cons x xs ih =>
    obtain ⟨rfl, entry, here, rest⟩ := seg
    rw [List.mem_cons, not_or] at others
    rw [List.length_cons, Nat.add_right_comm, stdCallbackLoop, if_neg (Ne.symm others.1)]
    simp only [bind, Option.bind_some, here, ih rest others.2]
    cases stdCallbackLoop invoke data fuel q prog <;> rfl

/-- With too little fuel to get past them it fails. -/
theorem stdCallbackLoop_short (seg : Seg prog.1.heap GtkCheopsList.next p xs q)
    (others : data ∉ xs) {fuel : Nat} (short : fuel < xs.length) :
    stdCallbackLoop invoke data fuel p prog = none := by
  induction xs generalizing p fuel with
  | nil => exact absurd short (Nat.not_lt_zero _)
  | cons x xs ih =>
    obtain ⟨rfl, entry, here, rest⟩ := seg
    rw [List.mem_cons, not_or] at others
    cases fuel with
    | zero => rfl
    | succ fuel =>
      rw [stdCallbackLoop, if_neg (Ne.symm others.1)]
      simp only [bind, Option.bind_some, here, ih rest others.2 (Nat.lt_of_succ_lt_succ short),
        Option.bind_none]

/-- The turn at the record that GDK has called for. -/
theorem stdCallbackLoop_here {entry : GtkCheopsList κ} (here : prog.1.heap data = some entry)
    (callback : entry.callback.isSome) (fuel : Nat) :
    stdCallbackLoop invoke data (fuel + 1) (some data) prog =
      ((invoke entry.toRegistration prog).1.heap data).bind fun entry' =>
        (stdCallbackLoop invoke data fuel entry'.next (invoke entry.toRegistration prog)).map
          fun r => ((entry.toRegistration, prog.1) :: r.1, r.2) := by
  rw [stdCallbackLoop, if_pos rfl]
  simp only [bind, here, callback, Option.bind_some, if_true]
  cases (invoke entry.toRegistration prog).1.heap data with
  | none => rfl
  | some entry' =>
    dsimp only [Option.bind_some]
    cases stdCallbackLoop invoke data fuel entry'.next (invoke entry.toRegistration prog) <;> rfl

/-- A list is walked through to its end. -/
theorem stdCallbackLoop_end (seg : Seg prog.1.heap GtkCheopsList.next p xs none)
    (others : data ∉ xs) :
    stdCallbackLoop invoke data xs.length p prog = some ([], prog) := by
  have skipped := stdCallbackLoop_skip invoke seg others 0
  rw [Nat.add_zero] at skipped
  rw [skipped]
  rfl

theorem stdCallbackLoop_silent {entry : GtkCheopsList κ} (here : prog.1.heap data = some entry)
    (silent : ¬ entry.callback.isSome) (fuel : Nat) :
    stdCallbackLoop invoke data (fuel + 1) (some data) prog =
      stdCallbackLoop invoke data fuel entry.next prog := by
  rw [stdCallbackLoop, if_pos rfl]
  simp only [bind, here, Option.bind_some, if_neg silent]
  cases stdCallbackLoop invoke data fuel entry.next prog <;> rfl

/-- A record that is allocated is in the list, once. -/
theorem Linked.split {io : GuiIo κ} {x : Nat} {entry : GtkCheopsList κ} (linked : Linked io xs)
    (here : io.heap x = some entry) :
    ∃ front back, Seg io.heap GtkCheopsList.next io.list front (some x) ∧ x ∉ front ∧
      Seg io.heap GtkCheopsList.next entry.next back none ∧ x ∉ back := by
  obtain ⟨front, back, rfl⟩ := List.append_of_mem (linked.all x (by rw [here]; rfl))
  obtain ⟨_, first, rfl, entry', here', rest⟩ := Seg.append_iff.mp linked.seg
  cases here.symm.trans here'
  have nodup := linked.seg.nodup
  simp only [List.nodup_append, List.nodup_cons, List.mem_cons] at nodup
  obtain ⟨-, ⟨apart, -⟩, disjoint⟩ := nodup
  exact ⟨front, back, first, fun member => disjoint x member x (.inl rfl) rfl, rest, apart⟩

end Loop

/-- For whatever registrations there are, and whatever the callback does to them, a delivery runs
    at most the callback of its registration, as it has been registered, and reads no record that
    has been freed, exactly if at the end of the callback there is a record at the address of the
    one that it has been run for. -/
theorem gtkCheopsIoStdCallback_iff {invoke : Registration κ → GuiIo κ × σ → GuiIo κ × σ}
    (operates : ∀ r prog, ∃ as, Run Acts prog.1 as (invoke r prog).1) {prog : GuiIo κ × σ}
    {as : List (IoAction κ)} (reached : Run Acts GuiIo.start as prog.1) (data : Nat) :
    (∃ fuel log prog', gtkCheopsIoStdCallback invoke fuel data prog = some (log, prog') ∧
        Deliveries log) ↔
      ∀ entry, prog.1.heap data = some entry → entry.callback.isSome →
        ((invoke entry.toRegistration prog).1.heap data).isSome := by
  obtain ⟨xs, linked⟩ := linked_start.run reached
  unfold gtkCheopsIoStdCallback
  constructor
  · rintro ⟨fuel, log, prog', returns, -⟩ entry here callback
    obtain ⟨front, back, first, others, -, -⟩ := linked.split here
    by_contra freed
    rw [Option.not_isSome_iff_eq_none] at freed
    -- the loop does not end before it has read the record again, however much fuel it has
    rcases Nat.lt_or_ge fuel front.length with short | long
    · rw [stdCallbackLoop_short first others short] at returns
      cases returns
    · obtain ⟨fuel, rfl⟩ := Nat.exists_eq_add_of_le long
      rw [stdCallbackLoop_skip invoke first others] at returns
      cases fuel with
      | zero => cases returns
      | succ fuel =>
        rw [stdCallbackLoop_here here callback, freed] at returns
        cases returns
  · intro stays
    have none_invoked : Deliveries ([] : List (Registration κ × GuiIo κ)) :=
      ⟨List.nodup_nil, fun e none => by cases none⟩
    cases here : prog.1.heap data with
    | none =>
      have others : data ∉ xs := by
        intro member
        obtain ⟨entry, allocated⟩ := linked.seg.allocated data member
        rw [here] at allocated
        cases allocated
      exact ⟨_, _, _, stdCallbackLoop_end linked.seg others, none_invoked⟩
    | some entry =>
      obtain ⟨front, back, first, others, rest, others'⟩ := linked.split here
      by_cases callback : entry.callback.isSome
      case pos =>
        -- the loop goes on from the record that is there when the callback returns
        obtain ⟨entry', here'⟩ := Option.isSome_iff_exists.mp (stays entry here callback)
        obtain ⟨as', run⟩ := operates entry.toRegistration prog
        obtain ⟨ys, linked'⟩ := linked.run run
        obtain ⟨front', back', -, -, rest', others''⟩ := linked'.split here'
        refine ⟨front.length + (back'.length + 1), [(entry.toRegistration, prog.1)],
          invoke entry.toRegistration prog, ?_, List.nodup_singleton _, fun e member => ?_⟩
        · rw [stdCallbackLoop_skip invoke first others, stdCallbackLoop_here here callback, here',
            Option.bind_some, stdCallbackLoop_end rest' others'']
          rfl
        · rw [List.mem_singleton.mp member]
          exact linked.registered here
      case neg =>
        refine ⟨front.length + (back.length + 1), [], prog, ?_, none_invoked⟩
        rw [stdCallbackLoop_skip invoke first others, stdCallbackLoop_silent here callback,
          stdCallbackLoop_end rest others']

/-- A callback that removes the registration 7 and makes another one, in the memory of the first. -/
def replacesOther (_ : Registration Unit) (prog : GuiIo Unit × Unit) : GuiIo Unit × Unit :=
  match guiIoRemove 2 7 prog.1 with
  | none => prog
  | some (_, io) =>
    if io.heap 100 = none then (guiIoAdd 5 (some ()) 1 0 100 9 io, ()) else (io, ())

theorem replacesOther_acts (r : Registration Unit) (prog : GuiIo Unit × Unit) :
    ∃ as, Run Acts prog.1 as (replacesOther r prog).1 := by
  unfold replacesOther
  split
  next => exact ⟨[], .refl⟩
  next ret io removed =>
    have first : Run Acts prog.1 [.remove 7] io := .single (.remove removed)
    split
    next free => exact ⟨_, first.snoc (.add free)⟩
    next => exact ⟨_, first⟩

/-- Of two registrations the first in the list replaces the one behind it. -/
theorem gtkCheopsIoStdCallback_iff_replaces :
    ∃ fuel log prog', gtkCheopsIoStdCallback replacesOther fuel 200
        (guiIoAdd 4 (some ()) 1 0 200 8 (guiIoAdd 3 (some ()) 1 0 100 7 GuiIo.start), ()) =
          some (log, prog') ∧ Deliveries log := by
  refine (gtkCheopsIoStdCallback_iff replacesOther_acts
    (.snoc (.single (.add rfl)) (.add rfl)) 200).mpr fun entry _ _ => ?_
  rfl

/-- A callback that removes its own registration, as `handle_agent` does when it cannot read. -/
def removesOwn (r : Registration κ) (prog : GuiIo κ × σ) : GuiIo κ × σ :=
  (((guiIoRemove 1 r.id prog.1).map Prod.snd).getD prog.1, prog.2)

theorem removesOwn_acts (r : Registration κ) (prog : GuiIo κ × σ) :
    ∃ as, Run Acts prog.1 as (removesOwn r prog).1 := by
  unfold removesOwn
  cases removed : guiIoRemove 1 r.id prog.1 with
  | none => exact ⟨[], .refl⟩
  | some result => exact ⟨[.remove r.id], Run.single (.remove removed)⟩

/-- The record is read after it has been freed. -/
theorem gtkCheopsIoStdCallback_reads_freed :
    (∀ r (prog : GuiIo Unit × Unit), ∃ as, Run Acts prog.1 as (removesOwn r prog).1) ∧
      ¬ ∃ fuel log prog', gtkCheopsIoStdCallback removesOwn fuel 100
        ((guiIoAdd 3 (some ()) 1 0 100 7 GuiIo.start, ()) : GuiIo Unit × Unit) =
          some (log, prog') ∧ Deliveries log := by
  refine ⟨removesOwn_acts, ?_⟩
  rintro ⟨fuel, log, prog', returns, -⟩
  cases fuel with
  | zero => cases returns
  | succ fuel =>
    have here : (guiIoAdd 3 (some ()) 1 0 100 7 GuiIo.start : GuiIo Unit).heap 100 = some
        { reg := 0, fd := 3, callback := some (), events := 1, data := 0, id := 7, next := none } :=
      rfl
    rw [gtkCheopsIoStdCallback,
      show (guiIoAdd 3 (some ()) 1 0 100 7 GuiIo.start : GuiIo Unit).list = some 100 from rfl,
      stdCallbackLoop_here here rfl] at returns
    cases returns

end Cheops.Gui
