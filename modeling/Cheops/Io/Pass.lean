import Cheops.Io.Displacement

/-! # What one call of `cheops_io_wait` invokes

Here a callback removes no entry but its own.  The last entry then takes the place of the one that
goes, which the loop has passed.  If it is one that the callbacks have added, nothing is lost; but
if it was ready, it is not invoked by this call.  `NoneMissed` follows the entries that the call
finds and says that this does not happen, and `cheopsIoWait_invokes_iff` that this is all there is
to it.
-/

namespace Cheops.Io

open Cheops.Lib

variable {κ : Type}

/-! ## Callbacks that are watched -/

/-- The behaviours of the callbacks that are still to run, and the invocations so far: what is
    passed to a callback is in its slot. -/
structure Watched (κ : Type) where
  script : List (Behaviour κ)
  invoked : List (Slot κ)

/-- A callback with no behaviour left does nothing and returns non-zero. -/
def nextBehaviour (script : List (Behaviour κ)) : Behaviour κ := script.head?.getD ⟨[], true⟩

def actOn (io : Poll κ) : Action κ → Poll κ
  | .add fd callback events data block => (cheopsIoAdd fd callback events data block io).2
  | .remove id => (cheopsIoRemove id io).2

def watchCallback (s : Slot κ) (p : Poll κ × Watched κ) : Bool × Poll κ × Watched κ :=
  let b := nextBehaviour p.2.script
  (b.ret, b.actions.foldl actOn p.1,
    { script := p.2.script.tail, invoked := p.2.invoked ++ [s] })

/-- `malloc` gives a block that is not in use, and no entry is removed but the one with the given
    id. -/
def OwnOnly (own : Nat) : Poll κ → List (Action κ) → Prop
  | _, [] => True
  | io, .add fd callback events data block :: as =>
    (∀ q ∈ block, io.cell q = none) ∧
      OwnOnly own (actOn io (.add fd callback events data block)) as
  | io, .remove id :: as => id = own ∧ OwnOnly own (actOn io (.remove id)) as

/-- What the callback of the turn at index `x` does, if it runs one, concerns its own entry or new
    ones. -/
def TurnOwnOnly (x : Nat) (p : Poll κ × Watched κ) : Prop :=
  (p.1.slot x).revents ≠ 0 →
    OwnOnly (p.1.slot x).id (p.1.calling x) (nextBehaviour p.2.script).actions

/-! ## The condition -/

def Behaviour.added (b : Behaviour κ) : Nat :=
  b.actions.countP fun
    | .add _ _ _ _ block => block.isSome
    | .remove _ => false

def Behaviour.ends (b : Behaviour κ) : Bool :=
  !b.ret || b.actions.any fun
    | .add .. => false
    | .remove _ => true

/-- `added` new entries stand behind the ones that the loop has still to look at.  When an entry
    goes and there are none, the last entry still to come is moved out of the way of the loop; it
    is not a ready one. -/
def NoneMissed : List (Behaviour κ) → Nat → List (Slot κ) → Prop
  | _, _, [] => True
  | script, added, s :: rest =>
    if s.revents = 0 then NoneMissed script added rest
    else
      let b := nextBehaviour script
      if b.ends then
        if 0 < added + b.added then NoneMissed script.tail (added + b.added - 1) rest
        else (∀ last ∈ rest.getLast?, last.revents = 0) ∧ NoneMissed script.tail 0 rest.dropLast
      else NoneMissed script.tail (added + b.added) rest
termination_by _ _ entries => entries.length

def invocations : List (Behaviour κ) → Nat → List (Slot κ) → List (Slot κ)
  | _, _, [] => []
  | script, added, s :: rest =>
    if s.revents = 0 then invocations script added rest
    else
      let b := nextBehaviour script
      if b.ends then
        if 0 < added + b.added then s :: invocations script.tail (added + b.added - 1) rest
        else s :: invocations script.tail 0 rest.dropLast
      else s :: invocations script.tail (added + b.added) rest
termination_by _ _ entries => entries.length

def isReady (s : Slot κ) : Bool := s.revents ≠ 0

def readyEntries (res : Int) (revents : Nat → Nat) (io : Poll κ) : List (Slot κ) :=
  if 0 < res then (entries (io.polled revents).slot io.fdcnt).filter isReady else []

/-! ## What is missed -/

section Missed

variable {script : List (Behaviour κ)} {added : Nat} {entries : List (Slot κ)}

theorem filter_isReady_concat (s : Slot κ) :
    (entries ++ [s]).filter isReady =
      entries.filter isReady ++ if s.revents = 0 then [] else [s] := by
  rw [List.filter_append]
  by_cases quiet : s.revents = 0
  · simp [isReady, quiet]
  · simp [isReady, quiet]

theorem invocations_sublist (script : List (Behaviour κ)) (added : Nat)
    (entries : List (Slot κ)) :
    (invocations script added entries).Sublist (entries.filter isReady) := by
  fun_induction invocations script added entries with
  | case1 => exact .refl _
  | case2 script added s rest quiet ih =>
    rw [List.filter_cons_of_neg (by simp [isReady, quiet])]
    exact ih
  | case3 script added s rest ready b ends room ih =>
    rw [List.filter_cons_of_pos (by simp [isReady, ready])]
    exact ih.cons_cons s
  | case4 script added s rest ready b ends room ih =>
    rw [List.filter_cons_of_pos (by simp [isReady, ready])]
    exact (ih.trans ((List.dropLast_sublist rest).filter _)).cons_cons s
  | case5 script added s rest ready b ends ih =>
    rw [List.filter_cons_of_pos (by simp [isReady, ready])]
    exact ih.cons_cons s

/-- Every ready entry is invoked, and in order, unless one is missed. -/
theorem invocations_eq_iff (script : List (Behaviour κ)) (added : Nat)
    (entries : List (Slot κ)) :
    invocations script added entries = entries.filter isReady ↔
      NoneMissed script added entries := by
  fun_induction invocations script added entries with
  | case1 =>
    rw [NoneMissed]
    exact iff_of_true rfl trivial
  | case2 script added s rest quiet ih =>
    rw [List.filter_cons_of_neg (by simp [isReady, quiet]), NoneMissed, if_pos quiet]
    exact ih
  | case3 script added s rest ready b ends room ih =>
    rw [List.filter_cons_of_pos (by simp [isReady, ready]), NoneMissed, if_neg ready,
      if_pos ends, if_pos room, ← ih]
    exact List.cons_inj_right s
  | case4 script added s rest ready b ends room ih =>
    rw [List.filter_cons_of_pos (by simp [isReady, ready]), NoneMissed, if_neg ready,
      if_pos ends, if_neg room, ← ih, List.cons_inj_right]
    -- the last entry takes the place of this one, and the loop has passed that place
    rcases List.eq_nil_or_concat' rest with rfl | ⟨front, last, rfl⟩
    · simp
    · rw [List.dropLast_concat, List.getLast?_concat, filter_isReady_concat]
      by_cases quiet : last.revents = 0
      case pos => simp [quiet]
      -- the last entry was ready: the two lists differ in length
      case neg =>
        have short := (invocations_sublist script.tail 0 front).length_le
        refine iff_of_false (fun same => ?_) fun none => quiet (none.1 last rfl)
        have long := congrArg List.length same
        rw [if_neg quiet, List.length_append, List.length_singleton] at long
        omega
  | case5 script added s rest ready b ends ih =>
    rw [List.filter_cons_of_pos (by simp [isReady, ready]), NoneMissed, if_neg ready,
      if_neg ends, ← ih]
    exact List.cons_inj_right s

theorem invocations_perm_iff (script : List (Behaviour κ)) (added : Nat)
    (entries : List (Slot κ)) :
    (invocations script added entries).Perm (entries.filter isReady) ↔
      NoneMissed script added entries := by
  rw [← invocations_eq_iff]
  constructor
  · intro perm
    exact (invocations_sublist script added entries).eq_of_length perm.length_eq
  · intro same
    rw [same]

end Missed

/-! ## A callback -/

section Callback

variable {io io' : Poll κ} {x n own : Nat}

/-- Entries have been added, and its own entry is to go if it was before or `ends`. -/
structure Returns (io io' : Poll κ) (added : Nat) (ends : Bool) : Prop where
  wf : io'.WellFormed
  fdcnt : io'.fdcnt = io.fdcnt + added
  slot : ∀ i < io.fdcnt, io'.slot i = io.slot i
  current : io'.currentIoc = io.currentIoc
  remove : io'.removeCurrentIoc = (io.removeCurrentIoc || ends)
  quiet : ∀ n, io.QuietFrom n → io'.QuietFrom n

theorem Returns.trans {io'' : Poll κ} {added added' : Nat} {ends ends' : Bool}
    (first : Returns io io' added ends) (second : Returns io' io'' added' ends') :
    Returns io io'' (added + added') (ends || ends') where
  wf := second.wf
  fdcnt := by rw [second.fdcnt, first.fdcnt, Nat.add_assoc]
  slot i inside := by
    rw [second.slot i (by rw [first.fdcnt]; omega), first.slot i inside]
  current := second.current.trans first.current
  remove := by rw [second.remove, first.remove, Bool.or_assoc]
  quiet n quiet := second.quiet n (first.quiet n quiet)

theorem returns_add (wf : io.WellFormed) {fd : Int} {callback : κ} {events data : Nat}
    {block : Option Nat} (fresh : ∀ q ∈ block, io.cell q = none) :
    Returns io (actOn io (.add fd callback events data block))
      (if block.isSome then 1 else 0) false where
  wf := wf.add fresh
  fdcnt := by cases block <;> rfl
  slot i inside := cheopsIoAdd_slot inside fd callback events data block
  current := by cases block <;> rfl
  remove := by cases block <;> simp [actOn, cheopsIoAdd]
  quiet n quiet := quiet.add fd callback events data block

theorem returns_remove (wf : io.WellFormed) (inside : x < io.fdcnt) (current : io.currentIoc = x)
    (id : (io.slot x).id = own) : Returns io (actOn io (.remove own)) 0 true := by
  have same : actOn io (.remove own) = { io with removeCurrentIoc := true } := by
    rcases wf.remove_cases inside with ⟨-, removed⟩ | ⟨other, -⟩
    · rw [id] at removed
      exact removed
    · exact absurd current other
  rw [same]
  exact ⟨wf.remembered _ _, rfl, fun _ _ => rfl, rfl, (Bool.or_true _).symm, fun _ quiet => quiet⟩

/-- What a callback that leaves other entries alone has done when it returns. -/
theorem returns_actions (actions : List (Action κ)) (wf : io.WellFormed) (inside : x < io.fdcnt)
    (current : io.currentIoc = x) (id : (io.slot x).id = own)
    (allowed : OwnOnly own io actions) (ret : Bool) :
    let b : Behaviour κ := ⟨actions, ret⟩
    ∃ ends, Returns io (actions.foldl actOn io) b.added ends ∧ b.ends = (!ret || ends) := by
  induction actions generalizing io with
  | nil =>
    refine ⟨false, ⟨wf, rfl, fun _ _ => rfl, rfl, (Bool.or_false _).symm, fun _ quiet => quiet⟩, ?_⟩
    rfl
  | cons a actions ih =>
    have first : ∃ added ends, Returns io (actOn io a) added ends ∧
        OwnOnly own (actOn io a) actions ∧
        (⟨a :: actions, ret⟩ : Behaviour κ).added = added + (⟨actions, ret⟩ : Behaviour κ).added ∧
        (⟨a :: actions, ret⟩ : Behaviour κ).ends =
          (ends || (⟨actions, ret⟩ : Behaviour κ).ends) := by
      cases a with
      | add fd callback events data block =>
        refine ⟨_, _, returns_add wf allowed.1, allowed.2, ?_, ?_⟩
        · simp only [Behaviour.added, List.countP_cons]
          omega
        · simp [Behaviour.ends]
      | remove id' =>
        obtain ⟨rfl, rest⟩ := allowed
        refine ⟨_, _, returns_remove wf inside current id, rest, ?_, ?_⟩
        · simp [Behaviour.added]
        · simp [Behaviour.ends]
    obtain ⟨added, ends, step, rest, adds, asks⟩ := first
    obtain ⟨ends', returns, asks'⟩ := ih step.wf (by rw [step.fdcnt]; omega)
      (step.current.trans current) (by rw [step.slot x inside, id]) rest
    refine ⟨ends || ends', ?_, ?_⟩
    · rw [adds]
      exact step.trans returns
    · rw [asks, asks']
      cases ends <;> cases ret <;> rfl

end Callback

/-! ## The loop -/

section Loop

variable {io : Poll κ} {w : Watched κ} {x added : Nat} {rest : List (Slot κ)}

/-- At index `x` of the loop: `rest` is still to come, and then only entries that are new. -/
structure At (x added : Nat) (rest : List (Slot κ)) (io : Poll κ) : Prop where
  wf : io.WellFormed
  fdcnt : io.fdcnt - x = rest.length + added
  slot : ∀ i (h : i < rest.length), io.slot (x + i) = rest[i]
  quiet : io.QuietFrom (x + rest.length)

theorem At.inside {s : Slot κ} (at_ : At x added (s :: rest) io) : x < io.fdcnt := by
  have count := at_.fdcnt
  rw [List.length_cons] at count
  omega

theorem At.head {s : Slot κ} (at_ : At x added (s :: rest) io) : io.slot x = s :=
  at_.slot 0 (by simp)

/-- The loop passes an entry that stays. -/
theorem At.pass {s : Slot κ} (at_ : At x added (s :: rest) io) : At (x + 1) added rest io where
  wf := at_.wf
  fdcnt := by
    have count := at_.fdcnt
    rw [List.length_cons] at count
    omega
  slot i inside := by
    have next := at_.slot (i + 1) (by simpa using inside)
    rw [Nat.add_assoc, Nat.add_comm 1 i, next, List.getElem_cons_succ]
  quiet := by
    have quiet := at_.quiet
    rwa [List.length_cons, Nat.add_comm rest.length 1, ← Nat.add_assoc] at quiet

theorem At.returns {s : Slot κ} {io' : Poll κ} {more : Nat} {ends : Bool}
    (at_ : At x added (s :: rest) io) (returns : Returns (io.calling x) io' more ends) :
    At x (added + more) (s :: rest) io' where
  wf := returns.wf
  fdcnt := by
    have count := at_.fdcnt
    have grown : io'.fdcnt = io.fdcnt + more := returns.fdcnt
    have inside := at_.inside
    omega
  slot i inside := by
    have count := at_.fdcnt
    rw [returns.slot (x + i) (show x + i < io.fdcnt by omega)]
    exact at_.slot i inside
  quiet := returns.quiet _ at_.quiet

theorem At.idle (at_ : At x added rest io) (current : Int) :
    At x added rest { io with currentIoc := current } :=
  ⟨at_.wf.remembered _ _, at_.fdcnt, at_.slot, at_.quiet⟩

/-- The entry at `x` goes, and a new one takes its place. -/
theorem At.shrink_new {s : Slot κ} (at_ : At x added (s :: rest) io) (room : 0 < added) :
    At (x + 1) (added - 1) rest (ioShrink x io) := by
  have count := at_.fdcnt
  have inside := at_.inside
  rw [List.length_cons] at count
  constructor
  case wf => exact at_.wf.shrink inside
  case fdcnt =>
    rw [ioShrink_fdcnt]
    omega
  case slot =>
    intro i h
    rw [ioShrink_slot (by omega), Function.update_of_ne (by omega)]
    exact at_.pass.slot i h
  case quiet => exact at_.pass.quiet.shrink x

/-- It goes, and the last entry that is still to come takes its place. -/
theorem At.shrink_last {s : Slot κ} (at_ : At x 0 (s :: rest) io) :
    At (x + 1) 0 rest.dropLast (ioShrink x io) := by
  have count := at_.fdcnt
  have inside := at_.inside
  rw [List.length_cons] at count
  constructor
  case wf => exact at_.wf.shrink inside
  case fdcnt =>
    rw [ioShrink_fdcnt, List.length_dropLast]
    omega
  case slot =>
    intro i h
    rw [List.length_dropLast] at h
    rw [ioShrink_slot (by omega), Function.update_of_ne (by omega), List.getElem_dropLast]
    exact at_.pass.slot i (by omega)
  case quiet =>
    intro i le lt
    rw [ioShrink_fdcnt] at lt
    rw [List.length_dropLast] at le
    omega

/-- The turn for an entry that is ready. -/
theorem At.turn {s : Slot κ} (at_ : At x added (s :: rest) io) (ready : s.revents ≠ 0)
    (own : TurnOwnOnly x (io, w)) :
    let b := nextBehaviour w.script
    let q := ioTurn watchCallback x (io, w)
    q.2 = { script := w.script.tail, invoked := w.invoked ++ [s] } ∧
      if b.ends then
        if 0 < added + b.added then At (x + 1) (added + b.added - 1) rest q.1
        else At (x + 1) 0 rest.dropLast q.1
      else At (x + 1) (added + b.added) rest q.1 := by
  have inside := at_.inside
  have head := at_.head
  have allowed := own (by rwa [head])
  obtain ⟨ends, returns, asks⟩ := returns_actions (nextBehaviour w.script).actions
    (at_.wf.calling x) inside rfl rfl allowed (nextBehaviour w.script).ret
  have after := at_.returns returns
  have shrinks : (!(nextBehaviour w.script).ret ||
      ((nextBehaviour w.script).actions.foldl actOn (io.calling x)).removeCurrentIoc) =
        (nextBehaviour w.script).ends := by
    have removed := returns.remove
    rw [show (io.calling x).removeCurrentIoc = false from rfl, Bool.false_or] at removed
    rw [removed]
    exact asks.symm
  dsimp only
  rw [ioTurn_ready at_.wf _ _ inside (by rwa [head]), head]
  refine ⟨rfl, ?_⟩
  dsimp only [returned, watchCallback, settle]
  rw [shrinks]
  by_cases ends : (nextBehaviour w.script).ends = true
  case neg =>
    rw [if_neg ends, if_neg ends]
    exact after.pass.idle _
  case pos =>
    rw [if_pos ends, if_pos ends]
    by_cases room : 0 < added + (nextBehaviour w.script).added
    case pos =>
      rw [if_pos room]
      exact (after.shrink_new room).idle _
    case neg =>
      have none : added + (nextBehaviour w.script).added = 0 := by omega
      rw [if_neg room]
      change At x (added + (nextBehaviour w.script).added) _ _ at after
      rw [none] at after
      exact after.shrink_last.idle _

/-- From index `x` on the loop makes the invocations that are described. -/
theorem At.invocations {p : Poll κ × Watched κ}
    (own : ∀ x < (turned watchCallback p x).1.fdcnt,
      TurnOwnOnly x (turned watchCallback p x))
    {script : List (Behaviour κ)} (left : (turned watchCallback p x).2.script = script)
    (at_ : At x added rest (turned watchCallback p x).1) :
    ∃ n added', At n added' [] (turned watchCallback p n).1 ∧
      (turned watchCallback p n).2.invoked =
        (turned watchCallback p x).2.invoked ++ Io.invocations script added rest := by
  have turn {script added s rest} {x : Nat} (left : (turned watchCallback p x).2.script = script)
      (at_ : At x added (s :: rest) (turned watchCallback p x).1) (ready : ¬ s.revents = 0) :
      let b := nextBehaviour script
      let q := turned watchCallback p (x + 1)
      (q.2.script = script.tail ∧
        q.2.invoked = (turned watchCallback p x).2.invoked ++ [s]) ∧
        if b.ends then
          if 0 < added + b.added then At (x + 1) (added + b.added - 1) rest q.1
          else At (x + 1) 0 rest.dropLast q.1
        else At (x + 1) (added + b.added) rest q.1 := by
    obtain ⟨watched, next⟩ := at_.turn (w := (turned watchCallback p x).2) ready
      (own x at_.inside)
    dsimp only at watched next ⊢
    rw [left] at watched next
    rw [turned_succ at_.inside]
    refine ⟨?_, next⟩
    rw [watched]
    exact ⟨rfl, rfl⟩
  -- induction over the entries still to come, in the cases of their description
  fun_induction Io.invocations script added rest generalizing x with
  | case1 script added => exact ⟨x, added, at_, (List.append_nil _).symm⟩
  | case2 script added s rest quiet ih =>
    have same : turned watchCallback p (x + 1) = turned watchCallback p x := by
      rw [turned_succ at_.inside]
      exact if_pos (by rwa [at_.head])
    have next := ih (x := x + 1) (by rwa [same]) (by rw [same]; exact at_.pass)
    rwa [same] at next
  | case3 script added s rest ready b ends room =>
    rename_i ih
    obtain ⟨⟨script', invoked⟩, next⟩ := turn left at_ ready
    rw [if_pos ends, if_pos room] at next
    obtain ⟨n, added', done, all⟩ := ih script' next
    exact ⟨n, added', done, by rw [all, invoked, List.append_assoc]; rfl⟩
  | case4 script added s rest ready b ends room =>
    rename_i ih
    obtain ⟨⟨script', invoked⟩, next⟩ := turn left at_ ready
    rw [if_pos ends, if_neg room] at next
    obtain ⟨n, added', done, all⟩ := ih script' next
    exact ⟨n, added', done, by rw [all, invoked, List.append_assoc]; rfl⟩
  | case5 script added s rest ready b ends =>
    rename_i ih
    obtain ⟨⟨script', invoked⟩, next⟩ := turn left at_ ready
    rw [if_neg ends] at next
    obtain ⟨n, added', done, all⟩ := ih script' next
    exact ⟨n, added', done, by rw [all, invoked, List.append_assoc]; rfl⟩

/-- At the beginning all entries are still to come. -/
theorem At.start (wf : io.WellFormed) : At 0 0 (entries io.slot io.fdcnt) io where
  wf := wf
  fdcnt := by simp
  slot i inside := by
    rw [Nat.zero_add]
    simp [entries]
  quiet i le lt := by
    rw [length_entries] at le
    omega

end Loop

/-! ## The call -/

/-- The program at the beginning of the turn at index `x` of a call. -/
def beforeTurnWatched (revents : Nat → Nat) (io : Poll κ) (script : List (Behaviour κ))
    (x : Nat) : Poll κ × Watched κ :=
  turned watchCallback (io.polled revents, { script, invoked := [] }) x

/-- A call invokes every entry that is ready exactly once, with what is in its slot, and no other,
    if and only if none is missed. -/
theorem cheopsIoWait_invokes_iff (res : Int) (revents : Nat → Nat) (io : Poll κ)
    (script : List (Behaviour κ)) (wf : io.WellFormed)
    (own : ∀ x < (beforeTurnWatched revents io script x).1.fdcnt,
      TurnOwnOnly x (beforeTurnWatched revents io script x)) :
    ∃ turns p', cheopsIoWait watchCallback turns res revents (io, { script, invoked := [] }) =
        some p' ∧
      (p'.2.invoked.Perm (readyEntries res revents io) ↔
        (0 < res → NoneMissed script 0 (entries (io.polled revents).slot io.fdcnt))) := by
  by_cases some : 0 < res
  case neg =>
    refine ⟨0, (io.polled revents, { script, invoked := [] }), if_neg some, ?_⟩
    rw [readyEntries, if_neg some]
    exact iff_of_true (.refl _) fun h => absurd h some
  case pos =>
    obtain ⟨n, added, done, all⟩ := At.invocations own (x := 0) rfl
      (At.start (wf.polled revents))
    -- behind the entries that were there, only quiet ones are left: the loop ends
    have quiet : (beforeTurnWatched revents io script n).1.QuietFrom n := done.quiet
    have stops := turned_of_quiet quiet (beforeTurnWatched revents io script n).1.fdcnt
    have ended : ¬ 0 + (n + (beforeTurnWatched revents io script n).1.fdcnt) <
        (turned watchCallback (io.polled revents, { script, invoked := [] })
          (0 + (n + (beforeTurnWatched revents io script n).1.fdcnt))).1.fdcnt := by
      rw [Nat.zero_add, stops]
      change ¬ n + (beforeTurnWatched revents io script n).1.fdcnt <
        (beforeTurnWatched revents io script n).1.fdcnt
      omega
    have loop := ioLoop_turned ended
    rw [Nat.zero_add, stops] at loop
    refine ⟨n + (beforeTurnWatched revents io script n).1.fdcnt,
      beforeTurnWatched revents io script n, ?_, ?_⟩
    · unfold cheopsIoWait
      dsimp only
      rw [if_pos some]
      exact loop
    · rw [readyEntries, if_pos some, forall_prop_of_true some, ← invocations_perm_iff,
        beforeTurnWatched, all]
      exact Iff.rfl

/-! ## A missed entry -/

def allReady (_ : Nat) : Nat := 1

def replacesItself : List (Behaviour Unit) := [⟨[.add 8 () 1 80 (some 103), .remove 100], true⟩]

def endsItself : List (Behaviour Unit) := [⟨[], false⟩]

theorem replacesItself_ownOnly :
    ∀ x < (beforeTurnWatched allReady threeEntries.1 replacesItself x).1.fdcnt,
      TurnOwnOnly x (beforeTurnWatched allReady threeEntries.1 replacesItself x) := by
  intro x inside ready
  by_cases below : x < 3
  case pos =>
    interval_cases x
    · refine ⟨fun q block => ?_, by decide, trivial⟩
      obtain rfl := Option.some.inj block
      decide
    · trivial
    · trivial
  case neg =>
    obtain ⟨k, rfl⟩ := Nat.exists_eq_add_of_le (Nat.le_of_not_lt below)
    have ended : ¬ 3 < (beforeTurnWatched allReady threeEntries.1 replacesItself 3).1.fdcnt := by
      decide
    rw [beforeTurnWatched, turned_ended ended] at inside
    exact absurd inside (by
      change ¬ 3 + k < (beforeTurnWatched allReady threeEntries.1 replacesItself 3).1.fdcnt
      omega)

theorem cheopsIoWait_invokes_iff_replacesItself :
    ∃ turns p', cheopsIoWait watchCallback turns 3 allReady
        (threeEntries.1, { script := replacesItself, invoked := [] }) = some p' ∧
      (p'.2.invoked.Perm (readyEntries 3 allReady threeEntries.1) ↔
        ((0 : Int) < 3 → NoneMissed replacesItself 0
          (entries (threeEntries.1.polled allReady).slot threeEntries.1.fdcnt))) :=
  cheopsIoWait_invokes_iff 3 allReady threeEntries.1 replacesItself removesFirst_sound.1
    replacesItself_ownOnly

theorem endsItself_ownOnly :
    ∀ x < (beforeTurnWatched allReady threeEntries.1 endsItself x).1.fdcnt,
      TurnOwnOnly x (beforeTurnWatched allReady threeEntries.1 endsItself x) := by
  intro x inside ready
  by_cases below : x < 2
  case pos =>
    interval_cases x
    · trivial
    · trivial
  case neg =>
    obtain ⟨k, rfl⟩ := Nat.exists_eq_add_of_le (Nat.le_of_not_lt below)
    have ended : ¬ 2 < (beforeTurnWatched allReady threeEntries.1 endsItself 2).1.fdcnt := by
      decide
    rw [beforeTurnWatched, turned_ended ended] at inside
    exact absurd inside (by
      change ¬ 2 + k < (beforeTurnWatched allReady threeEntries.1 endsItself 2).1.fdcnt
      omega)

/-- The last entry takes the place of the first one, which the loop has passed. -/
theorem cheopsIoWait_misses_entry :
    threeEntries.1.WellFormed ∧
      (∀ x < (beforeTurnWatched allReady threeEntries.1 endsItself x).1.fdcnt,
        TurnOwnOnly x (beforeTurnWatched allReady threeEntries.1 endsItself x)) ∧
      ∃ p', cheopsIoWait watchCallback 2 3 allReady
          (threeEntries.1, { script := endsItself, invoked := [] }) = some p' ∧
        p'.2.invoked.map (·.fd) = [5, 6] ∧
        (readyEntries 3 allReady threeEntries.1).map (·.fd) = [5, 6, 7] ∧
        ¬ p'.2.invoked.Perm (readyEntries 3 allReady threeEntries.1) := by
  refine ⟨removesFirst_sound.1, endsItself_ownOnly, _, rfl, by decide, by decide, ?_⟩
  intro perm
  exact absurd perm.length_eq (by decide)

end Cheops.Io
