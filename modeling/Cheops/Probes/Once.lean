import Cheops.Probes.Invariant

/-! # Every probe ends once

The steps of a run keep the invariant, and a step that frees a probe is one that invokes its `cb`
or its `timeout_cb` (`Ended`).  The condition is that the counter of the timer ids does not
overflow: a negative id means to `recieve_cb` that there is no timer.
-/

namespace Cheops.Probes

open Cheops.Io Cheops.Lib Cheops.Scheduler

/-! ## What a step does to the probes that end in it -/

/-- A step from `w` to `w'` frees just the probes one of whose callbacks it invokes. -/
def Ended (w w' : World) : Prop :=
  ∃ es, w'.log = w.log ++ es ∧ (∀ n, Freed n es ↔ Invoked n es) ∧
    ∀ n a, .freed n a ∈ es → w'.heap a = none

theorem Ended.of_log {w w' : World} (h : w'.log = w.log) : Ended w w' :=
  ⟨[], by rw [h, List.append_nil], fun n => by simp [Freed, Invoked], nofun⟩

theorem Ended.sent {w w' : World} {n : Nat} (h : w'.log = w.log ++ [.sent n]) : Ended w w' :=
  ⟨_, h, fun m => by simp [Freed, Invoked], by simp⟩

theorem Ended.done {w w' : World} {e : Event} {n a : Nat} (he : e = .cb n ∨ e = .timeout n)
    (hlog : w'.log = w.log ++ [e] ++ [.freed n a]) (hheap : w'.heap a = none) : Ended w w' := by
  refine ⟨[e, .freed n a], by rw [hlog, List.append_assoc]; rfl, fun m => ?_, fun m b hb => ?_⟩
  · rcases he with rfl | rfl <;> simp [Freed, Invoked, eq_comm]
  · rcases he with rfl | rfl
    all_goals
      obtain ⟨rfl, rfl⟩ : m = n ∧ b = a := by simpa using hb
      exact hheap

/-! ## The callbacks -/

variable {q : Program} {x : Nat}

theorem delIfSet_timers {T : Entries} {heap : Nat → Option ProbeData} {w : World} {a : Nat}
    {pd : ProbeData} (h : Linked T (timers w.sched) heap) (d : Distinct T (timers w.sched))
    (hpd : heap a = some pd) (i : Int) (b : Nat) :
    (i, .timeoutCb, b) ∈ timers (w.delIfSet pd.tid).sched ↔
      (i, .timeoutCb, b) ∈ timers w.sched ∧ b ≠ a := by
  unfold World.delIfSet
  dsimp only
  split
  next htid =>
    have hmem := (h a).tid pd hpd htid
    rcases cheopsSchedDel_timers pd.tid w.sched with ⟨e, he, hid, hperm⟩ | ⟨hnone, -⟩
    · have htimer : e.timer = (pd.tid, .timeoutCb, a) :=
        d.timers _ (List.mem_map_of_mem he) _ hmem hid
      exact h.timer_gone d hpd (htimer ▸ hperm) i b
    · obtain ⟨e, he, hid⟩ := List.mem_map.mp hmem
      exact absurd (congrArg Prod.fst hid) (hnone e he)
  next htid =>
    refine (and_iff_left_of_imp fun hb heq => htid ?_).symm
    subst heq
    exact ((h.timer_iff d hpd).mp hb).1

theorem Inv.sendCb (h : Inv none q) (hx : x < q.1.fdcnt) (hcb : (q.1.slot x).callback = .sendCb) :
    let q' := returned x (sendCb (q.1.slot x).data (q.1.calling x, q.2))
    Inv none q' ∧ Ended q.2 q'.2 := by
  have hr := slot_mem_table hx
  obtain ⟨pd, hpd, hid⟩ := h.linked.entry hr (by rw [hcb]; nofun)
  obtain ⟨hwf, hmem⟩ := (h.wf.calling x).settle_zero hx (-1)
  have hlinked := h.linked.send h.distinct hr hcb hpd (pd.flags ||| PROBE_DATA_FLAGS_SEND)
    fun s _ => hmem s
  have hlogged := h.logged.set hpd { pd with
    flags := pd.flags ||| PROBE_DATA_FLAGS_SEND, soid := none } rfl ⟨rfl, rfl, rfl⟩
  have hcall := sendCb_eq (q := (q.1.calling x, q.2)) hpd
  rw [hcall]
  cases hsend : pd.p.send with
  | true => exact ⟨⟨hwf, h.sched, hlinked, hlogged.sent pd.serial, h.fault⟩, .sent rfl⟩
  | false =>
    rw [World.called_false]
    exact ⟨⟨hwf, h.sched, hlinked, hlogged, h.fault⟩, .of_log rfl⟩

theorem Inv.recieveCb (h : Inv none q) (hx : x < q.1.fdcnt)
    (hcb : (q.1.slot x).callback = .recieveCb) :
    let q' := returned x (recieveCb (q.1.slot x).data (q.1.calling x, q.2))
    Inv none q' ∧ Ended q.2 q'.2 := by
  have hr := slot_mem_table hx
  obtain ⟨pd, hpd, hid⟩ := h.linked.entry hr (by rw [hcb]; nofun)
  obtain ⟨hrecieve, hpdcb, -⟩ := h.logged.wants _ pd hpd
  by_cases hflags : pd.flags &&& PROBE_DATA_FLAGS_SEND = 0
  · have hcall := recieveCb_unsent (q := (q.1.calling x, q.2)) hpd hrecieve hpdcb hflags
    rw [hcall]
    exact ⟨⟨h.wf.remembered _ _, h.sched, h.linked, h.logged, h.fault⟩, .of_log rfl⟩
  · have hsoid := (h.linked _).sent pd hpd hflags
    obtain ⟨hwf, hmem⟩ := (h.wf.calling x).settle_zero hx (-1)
    have hcall := recieveCb_sent (q := (q.1.calling x, q.2)) hpd hrecieve hpdcb hflags
    rw [hcall, hsoid]
    have hlinked := h.linked.free (fun r hrcb => (hmem r).trans (and_congr_right fun hr' =>
      not_congr ⟨fun heq => by rw [heq]; rfl, fun hdata => ?_⟩))
      (delIfSet_timers (w := q.2.called true (.cb pd.serial)) h.linked h.distinct hpd)
    · refine ⟨⟨hwf, ?_, hlinked, h.logged.done hpd (.inl rfl), h.fault⟩,
        .done (.inl rfl) rfl (Function.update_self ..)⟩
      obtain ⟨issued, hissued, hsched⟩ := h.sched
      refine ⟨issued, hissued, ?_⟩
      change Scheduler.Inv issued none (if 0 ≤ pd.tid then _ else _)
      split
      · exact cheopsSchedDel_inv hsched
      · exact hsched
    · obtain ⟨pd', hpd', hid'⟩ := h.linked.entry hr' hrcb
      obtain rfl : pd' = pd := Option.some.inj (hpd'.symm.trans (hdata ▸ hpd))
      cases hcallback : r.callback with
      | sendCb =>
        rw [hcallback] at hid'
        cases hsoid.symm.trans hid'
      | recieveCb =>
        exact h.linked.entry_unique h.distinct hr hr' (fun heq => by cases hcb.symm.trans heq)
          (hcallback.trans hcb.symm) hdata
      | other => exact absurd hcallback hrcb

/-- A callback that is not of a probe. -/
theorem Inv.otherCb (h : Inv none q) (hx : x < q.1.fdcnt) (hcb : (q.1.slot x).callback = .other)
    {calls : List Call} (fresh : AllFresh (q.1.calling x, q.2) calls)
    (wants : ∀ c ∈ calls, c.Wants)
    (hbound : q.2.sched.eventcnt + timersAdded calls < 2 ^ 31) (ret : Bool) :
    let q' := returned x (ret, calls.foldl Call.run (q.1.calling x, q.2))
    Inv none q' ∧ Ended q.2 q'.2 := by
  have hcalling : Inv none (q.1.calling x, q.2) :=
    ⟨h.wf.calling x, h.sched, h.linked, h.logged, h.fault⟩
  obtain ⟨hinv, hgrows, hlog, -⟩ := hcalling.calls fresh wants hbound
  refine ⟨?_, .of_log hlog⟩
  generalize calls.foldl Call.run (q.1.calling x, q.2) = q' at hinv hgrows
  have hx' : x < q'.1.fdcnt := Nat.lt_of_lt_of_le hx hgrows.fdcnt
  have hslot : q'.1.slot x = q.1.slot x := hgrows.slot x hx
  cases ret with
  | true =>
    have hsettle := settle_nonzero hgrows.remove x
    unfold returned
    rw [hsettle]
    exact ⟨hinv.wf.remembered _ _, hinv.sched, hinv.linked, hinv.logged, hinv.fault⟩
  | false =>
    obtain ⟨hwf, hmem⟩ := hinv.wf.settle_zero hx' (-1)
    refine ⟨hwf, hinv.sched, hinv.linked.congr (fun r hrcb => ?_) fun i b => .rfl, hinv.logged,
      hinv.fault⟩
    refine (hmem r).trans (and_iff_left fun heq => hrcb ?_)
    rw [heq, hslot, hcb]

theorem Inv.turn (h : Inv none q) (hidle : q.1.currentIoc = -1) (hx : x < q.1.fdcnt)
    {calls : List Call} (fresh : AllFresh (q.1.calling x, q.2) calls)
    (wants : ∀ c ∈ calls, c.Wants)
    (hbound : q.2.sched.eventcnt + timersAdded calls < 2 ^ 31) (ret : Bool) :
    let q' := ioTurn (invoke calls ret) x q
    Inv none q' ∧ q'.1.currentIoc = -1 ∧ Ended q.2 q'.2 := by
  by_cases hready : (q.1.slot x).revents = 0
  · have hturn : ioTurn (invoke calls ret) x q = q := if_pos hready
    rw [hturn]
    exact ⟨h, hidle, .of_log rfl⟩
  · have hturn := ioTurn_ready h.wf (invoke calls ret) q.2 hx hready
    rw [hturn]
    unfold invoke
    cases hcb : (q.1.slot x).callback with
    | sendCb =>
      obtain ⟨hinv, hended⟩ := h.sendCb hx hcb
      exact ⟨hinv, rfl, hended⟩
    | recieveCb =>
      obtain ⟨hinv, hended⟩ := h.recieveCb hx hcb
      exact ⟨hinv, rfl, hended⟩
    | other =>
      obtain ⟨hinv, hended⟩ := h.otherCb hx hcb fresh wants hbound ret
      exact ⟨hinv, rfl, hended⟩

/-- An entry is removed by the id a record knows it by. -/
theorem removeIfSet_mem {io : Poll IoCallback} (wf : io.WellFormed) (hidle : io.currentIoc = -1)
    (id : Option Nat) (hid : ∀ p, id = some p → ∃ r ∈ io.table, r.id = p) :
    (removeIfSet id io).WellFormed ∧ (removeIfSet id io).currentIoc = -1 ∧
      ∀ r, r ∈ (removeIfSet id io).table ↔ r ∈ io.table ∧ id ≠ some r.id := by
  cases id with
  | none => exact ⟨wf, hidle, fun r => (and_iff_left nofun).symm⟩
  | some p =>
    obtain ⟨r, hr, rfl⟩ := hid p rfl
    obtain ⟨hwf, hidle', hmem⟩ := wf.remove_idle hidle hr
    refine ⟨hwf, hidle', fun s => (hmem s).trans (and_congr_right fun _ => ?_)⟩
    simp [eq_comm]

/-- Both entries of a record are removed. -/
theorem Linked.removed {io : Poll IoCallback} {S : Timers} {heap : Nat → Option ProbeData}
    {a : Nat} {pd : ProbeData} (h : Linked io.table S heap) (d : Distinct io.table S)
    (wf : io.WellFormed) (hidle : io.currentIoc = -1) (hpd : heap a = some pd) :
    let io' := removeIfSet pd.siid (removeIfSet pd.soid io)
    io'.WellFormed ∧ io'.currentIoc = -1 ∧
      ∀ r, r.callback ≠ .other → (r ∈ io'.table ↔ r ∈ io.table ∧ r.data ≠ a) := by
  have hknown (callback : IoCallback) {p : Nat} (hp : pd.ioId callback = some p) :
      ∃ r ∈ io.table, r.id = p ∧ r.callback = callback ∧ r.data = a :=
    (h a).known pd hpd callback p hp
  obtain ⟨wf₁, hidle₁, hmem₁⟩ := removeIfSet_mem wf hidle pd.soid fun p hp => by
    obtain ⟨r, hr, hid, -⟩ := hknown .sendCb hp
    exact ⟨r, hr, hid⟩
  obtain ⟨wf₂, hidle₂, hmem₂⟩ := removeIfSet_mem wf₁ hidle₁ pd.siid fun p hp => by
    obtain ⟨r, hr, hid, hcb, -⟩ := hknown .recieveCb hp
    refine ⟨r, (hmem₁ r).mpr ⟨hr, fun hsoid => ?_⟩, hid⟩
    obtain ⟨s, hs, hsid, hscb, -⟩ := hknown .sendCb hsoid
    obtain rfl := d.entries s hs r hr hsid
    cases hscb.symm.trans hcb
  refine ⟨wf₂, hidle₂, fun r hcb => ?_⟩
  rw [hmem₂, hmem₁, and_assoc]
  refine and_congr_right fun hr => ⟨fun ⟨hsoid, hsiid⟩ hdata => ?_, fun hdata => ?_⟩
  · obtain ⟨pd', hpd', hid⟩ := h.entry hr hcb
    obtain rfl : pd' = pd := Option.some.inj (hpd'.symm.trans (hdata ▸ hpd))
    cases hcallback : r.callback with
    | sendCb =>
      rw [hcallback] at hid
      exact hsoid hid
    | recieveCb =>
      rw [hcallback] at hid
      exact hsiid hid
    | other => exact hcb hcallback
  · have hother (callback : IoCallback) : pd.ioId callback ≠ some r.id := fun hp => by
      obtain ⟨s, hs, hsid, -, hsdata⟩ := hknown callback hp
      obtain rfl := d.entries s hs r hr hsid
      exact hdata hsdata
    exact ⟨hother .sendCb, hother .recieveCb⟩

/-- The time of a probe is up. -/
theorem Inv.timeoutCb (h : Inv none q) (hidle : q.1.currentIoc = -1) {now : Option Timeval}
    {e : Sched SchedCallback} {sched : SchedState SchedCallback}
    (due : runqTake now q.2.sched = some (e, sched)) (hcb : e.callback = .timeoutCb)
    (later : Option Timeval) :
    let q' := finished e later (timeoutCb e.data (q.1, q.2.withSched sched))
    Inv none q' ∧ q'.1.currentIoc = -1 ∧ Ended q.2 q'.2 := by
  have htimers := runqTake_timers due
  obtain ⟨issued, hissued, hsched⟩ := h.sched
  obtain ⟨pd, hpd, htid⟩ := (h.linked e.data).timers e.timer
    (by rw [htimers]; exact List.mem_cons_self ..) (by rw [Sched.timer, Sched.call, hcb])
  obtain ⟨-, -, hwants⟩ := h.logged.wants _ pd hpd
  obtain ⟨hwf, hidle', hmem⟩ := h.linked.removed h.distinct h.wf hidle hpd
  have hperm : (timers q.2.sched).Perm ((pd.tid, .timeoutCb, e.data) :: timers sched) := by
    rw [htimers, Sched.timer, Sched.call, hcb, htid]
    rfl
  have hlinked := h.linked.free (fun r hrcb => hmem r hrcb)
    (h.linked.timer_gone h.distinct hpd hperm)
  have hcall := timeoutCb_eq (q := (q.1, q.2.withSched sched)) hpd
  have hreturned : Scheduler.Inv issued none (runqReturned e false later sched) :=
    runqReturned_inv (runqTake_inv hsched due)
  have hreleased := runqReturned_timers_false e later sched
  rw [← hreleased] at hlinked
  rw [hcall, hwants]
  exact ⟨⟨hwf, ⟨issued, hissued, hreturned⟩, hlinked, h.logged.done hpd (.inr rfl), h.fault⟩,
    hidle', .done (.inr rfl) rfl (Function.update_self ..)⟩

/-- A timer that is not of a probe. -/
theorem Inv.otherTimer (h : Inv none q) (hidle : q.1.currentIoc = -1) {now : Option Timeval}
    {e : Sched SchedCallback} {sched : SchedState SchedCallback}
    (due : runqTake now q.2.sched = some (e, sched)) (hcb : e.callback = .other)
    {calls : List Call} (fresh : AllFresh (q.1, q.2.withSched sched) calls)
    (wants : ∀ c ∈ calls, c.Wants)
    (hbound : q.2.sched.eventcnt + timersAdded calls < 2 ^ 31) (ret : Bool)
    (later : Option Timeval) :
    let q' := finished e later (ret, calls.foldl Call.run (q.1, q.2.withSched sched))
    Inv none q' ∧ q'.1.currentIoc = -1 ∧ Ended q.2 q'.2 := by
  have htimers := runqTake_timers due
  obtain ⟨issued, hissued, hsched⟩ := h.sched
  have htaken := runqTake_inv hsched due
  have hother {i : Int} {b : Nat} : (i, .timeoutCb, b) ≠ e.timer := fun heq => by
    have := congrArg (·.2.1) heq
    simp [Sched.timer, Sched.call, hcb] at this
  have hinv : Inv (some e) (q.1, q.2.withSched sched) := by
    refine ⟨h.wf, ⟨issued, hissued, htaken⟩, h.linked.congr (fun r _ => .rfl) fun i b => ?_,
      h.logged, h.fault⟩
    rw [htimers, List.mem_cons]
    exact (or_iff_right hother).symm
  have heventcnt : sched.eventcnt = q.2.sched.eventcnt :=
    htaken.queued.eventcnt.trans hsched.queued.eventcnt.symm
  obtain ⟨hinv, hgrows, hlog, -⟩ := hinv.calls fresh wants (by
    change sched.eventcnt + _ < _
    rwa [heventcnt])
  refine ⟨?_, hgrows.current.trans hidle, .of_log hlog⟩
  generalize calls.foldl Call.run (q.1, q.2.withSched sched) = q₁ at hinv
  obtain ⟨issued', hissued', hsched'⟩ := hinv.sched
  refine ⟨hinv.wf, ⟨issued', hissued', runqReturned_inv hsched'⟩,
    hinv.linked.congr (fun r _ => .rfl) fun i b => ?_, hinv.logged, hinv.fault⟩
  change _ ∈ timers (runqReturned e ret later q₁.2.sched) ↔ _
  rcases runqReturned_timers e ret later q₁.2.sched with hperm | heq
  · rw [hperm.mem_iff, List.mem_cons]
    exact or_iff_right hother
  · rw [heq]

/-! ## Runs -/

def Label.calls : Label → List Call
  | .call c => [c]
  | .turn calls _ => calls
  | .expire _ calls _ _ => calls
  | _ => []

/-- The counter of the timer ids does not overflow in a step, and the probes it starts have
    callbacks to invoke. -/
def Sane (c : Config) (l : Label) : Prop :=
  c.prog.2.sched.eventcnt + timersAdded l.calls < 2 ^ 31 ∧ ∀ c ∈ l.calls, c.Wants

def Idle (c : Config) : Prop := Inv none c.prog ∧ c.prog.1.currentIoc = -1

theorem Step.keeps {c c' : Config} {l : Label} (h : Idle c) (sane : Sane c l) (step : Step c l c') :
    Idle c' ∧ Ended c.prog.2 c'.prog.2 := by
  obtain ⟨hinv, hidle⟩ := h
  obtain ⟨hbound, hwants⟩ := sane
  cases step with
  | @call q call fresh =>
    have hfresh : AllFresh q [call] := ⟨fresh, trivial⟩
    obtain ⟨hinv', hgrows, hlog, -⟩ := hinv.calls hfresh hwants hbound
    exact ⟨⟨hinv', hgrows.current.trans hidle⟩, .of_log hlog⟩
  | @poll q revents =>
    refine ⟨⟨⟨hinv.wf.polled revents, hinv.sched, ?_, hinv.logged, hinv.fault⟩, hidle⟩, .of_log rfl⟩
    have hlinked := hinv.linked
    rw [← polled_table q.1 revents] at hlinked
    exact hlinked
  | @turn q x calls ret hx fresh =>
    obtain ⟨hinv', hidle', hended⟩ := hinv.turn hidle hx fresh hwants hbound ret
    exact ⟨⟨hinv', hidle'⟩, hended⟩
  | finish => exact ⟨⟨hinv, hidle⟩, .of_log rfl⟩
  | @expire q now later calls ret e sched due fresh =>
    unfold invokeSched
    cases hcb : e.callback with
    | timeoutCb =>
      obtain ⟨hinv', hidle', hended⟩ := hinv.timeoutCb hidle due hcb later
      exact ⟨⟨hinv', hidle'⟩, hended⟩
    | other =>
      obtain ⟨hinv', hidle', hended⟩ := hinv.otherTimer hidle due hcb fresh hwants hbound ret later
      exact ⟨⟨hinv', hidle'⟩, hended⟩

theorem start_idle (slot : Nat → Slot IoCallback) : Idle (start slot) := by
  refine ⟨⟨.start slot, ⟨0, by decide, initial_inv⟩, fun a => ?_, ?_, rfl⟩, rfl⟩
  · constructor <;> nofun
  · constructor
    case once => exact fun n => Nat.zero_le 1
    case gone => exact fun n ⟨a, ha⟩ => nomatch ha
    case freed => exact fun n hn => hn.elim nofun nofun
    all_goals simp [start]

theorem run_idle {slot : Nat → Slot IoCallback} {ls : List Label} {c : Config}
    (run : Run (Guarded Sane Step) (start slot) ls c) : Idle c :=
  run.state_invariant (start_idle slot) fun _ _ _ h step => (Step.keeps h step.1 step.2).1

/-- No poll entry and no timer of a probe has the record at `a` as its data. -/
def Unreferenced (a : Nat) (q : Program) : Prop :=
  (∀ r ∈ q.1.table, r.callback ≠ .other → r.data ≠ a) ∧
    ∀ e ∈ q.2.sched.schedq, e.callback ≠ .other → e.data ≠ a

theorem Inv.unreferenced {q : Program} (h : Inv none q) {a : Nat} (hfree : q.2.heap a = none) :
    Unreferenced a q := by
  have hself := h.linked a
  rw [hfree] at hself
  refine ⟨fun r hr hcb hdata => ?_, fun e he hcb hdata => ?_⟩
  · obtain ⟨_, hnone, -⟩ := hself.entries r hr hcb hdata
    cases hnone
  · have hcall : e.timer.2 = (.timeoutCb, a) := by
      rw [Sched.timer, Sched.call, hdata]
      cases hcallback : e.callback with
      | timeoutCb => rfl
      | other => exact absurd hcallback hcb
    obtain ⟨_, hnone, -⟩ := hself.timers _ (List.mem_map_of_mem he) hcall
    cases hnone

/-- In a run whose steps all meet the condition: no probe is freed twice, or both answered and
    timed out; no freed record is used, and the entries and timers of probes have records that
    are allocated; and a step frees just the probes one of whose callbacks it invokes, after which
    nothing refers to their records. -/
theorem probe_ends_once {slot : Nat → Slot IoCallback} {ls : List Label} {c : Config}
    (run : Run (Guarded Sane Step) (start slot) ls c) :
    (∀ n, c.prog.2.log.countP (Event.isFreed n) ≤ 1) ∧
    (∀ n, ¬ (.cb n ∈ c.prog.2.log ∧ .timeout n ∈ c.prog.2.log)) ∧
    c.prog.2.fault = false ∧
    (∀ a, c.prog.2.heap a = none → Unreferenced a c.prog) ∧
    ∀ l c', Guarded Sane Step c l c' →
      ∃ es, c'.prog.2.log = c.prog.2.log ++ es ∧ (∀ n, Freed n es ↔ Invoked n es) ∧
        ∀ n a, .freed n a ∈ es → Unreferenced a c'.prog := by
  have hidle := run_idle run
  have hinv := hidle.1
  refine ⟨hinv.logged.once, hinv.logged.exclusive, hinv.fault, fun a ha => hinv.unreferenced ha,
    fun l c' step => ?_⟩
  obtain ⟨⟨hinv', -⟩, es, hlog, hended, hheap⟩ := Step.keeps hidle step.1 step.2
  exact ⟨es, hlog, hended, fun n a hfreed => hinv'.unreferenced (hheap n a hfreed)⟩

/-! ## A probe that is answered -/

def request (timerBlock : Option Nat) : Request where
  addr := 16777343
  timeoutMs := 1000
  cb := true
  timeoutCb := true
  userData := 0
  p := some { port := 22, send := false, recieve := true }
  socket := 5
  block := some 7
  timerBlock
  now := some ⟨0, 0⟩
  outBlock := some 100
  inBlock := some 101

theorem request_wants (b : Option Nat) : (Call.getVersion (request b)).Wants :=
  ⟨rfl, rfl, by simp [request]⟩

def answered : List Label :=
  [.poll fun _ => 1, .turn [] false, .finish, .poll fun _ => 1, .turn [] false]

theorem answered_calls : ∀ l ∈ answered, l.calls = [] := by
  simp [answered, Label.calls]

def unused (st : SchedState SchedCallback) : Program :=
  (Poll.start fun _ => ⟨⟨0, 0, .other, 0, 0, 0⟩, 0⟩,
    { sched := st, heap := fun _ => none, log := [], started := 0, fault := false })

def waiting (tid : Int) (st : SchedState SchedCallback) : Program :=
  let out := cheopsIoAdd 5 .sendCb POLLOUT 7 (some 100) (unused st).1
  let in_ := cheopsIoAdd 5 .recieveCb POLLIN 7 (some 101) out.2
  (unused st).opened in_.2 st 7
    { cb := true, timeoutCb := true, userData := 0, socket := 5, ip := 16777343, siid := some 101
      soid := some 100, tid, flags := 0, p := { port := 22, send := false, recieve := true }
      serial := 0 }

def requestTimer (b : Option Nat) (st : SchedState SchedCallback) :
    Int × SchedState SchedCallback :=
  cheopsSchedAdd (int32 1000) .timeoutCb 7 b (some ⟨0, 0⟩) st

theorem getVersion_request (b : Option Nat) (st : SchedState SchedCallback) :
    getVersion (request b) (unused st) = waiting (requestTimer b st).1 (requestTimer b st).2 := rfl

theorem request_fresh {b : Option Nat} {st : SchedState SchedCallback}
    (hblock : ∀ p ∈ b, p ∉ st.allocated) : (Call.getVersion (request b)).Fresh (unused st) :=
  ⟨fun _ _ => rfl, hblock, fun _ _ => rfl, fun p hp => ⟨rfl, by
    obtain rfl := Option.some.inj hp
    simp [request]⟩⟩

theorem request_step {b : Option Nat} {st : SchedState SchedCallback}
    (hblock : ∀ p ∈ b, p ∉ st.allocated) :
    Step ⟨none, unused st⟩ (.call (.getVersion (request b)))
      ⟨none, waiting (requestTimer b st).1 (requestTimer b st).2⟩ := by
  have step := Step.call (request_fresh hblock)
  rw [Call.run, getVersion_request] at step
  exact step

theorem answered_run (tid : Int) (st : SchedState SchedCallback) (h : st.eventcnt < 2 ^ 31) :
    ∃ c, Run (Guarded Sane Step) ⟨none, waiting tid st⟩ answered c ∧
      c.prog.2.log = [.cb 0, .freed 0 7] ∧ c.prog.2.heap 7 = none ∧
      c.prog.2.sched = (World.delIfSet tid (unused st).2).sched := by
  have sane {t : Option Nat} {io : Poll IoCallback} {w : World} {l : Label} (hw : w.sched = st)
      (hl : l.calls = []) : Sane ⟨t, io, w⟩ l := by
    refine ⟨?_, by simp [hl]⟩
    rw [hl]
    change w.sched.eventcnt + 0 < _
    rw [hw, Int.add_zero]
    exact h
  refine ⟨_, .cons ⟨sane rfl rfl, .poll⟩ <|
    .cons ⟨sane rfl rfl, .turn (show 0 < 2 by decide) trivial⟩ <|
    .cons ⟨sane rfl rfl, .finish (show ¬ 1 < 1 by decide)⟩ <| .cons ⟨sane rfl rfl, .poll⟩ <|
    .cons ⟨sane rfl rfl, .turn (show 0 < 1 by decide) trivial⟩ .refl, ?_, ?_, ?_⟩
  all_goals with_unfolding_all rfl

theorem probe_ends_once_answered :
    ∃ c, Run (Guarded Sane Step) ⟨none, unused initial⟩
        (.call (.getVersion (request (some 3))) :: answered) c ∧
      c.prog.2.log = [.cb 0, .freed 0 7] ∧ Unreferenced 7 c.prog := by
  have hsane : Sane ⟨none, unused initial⟩ (.call (.getVersion (request (some 3)))) :=
    ⟨by decide, by simpa [Label.calls] using request_wants _⟩
  obtain ⟨c, run, hlog, hfree, -⟩ := answered_run (requestTimer (some 3) initial).1
    (requestTimer (some 3) initial).2 (by decide)
  have hrun := run.cons ⟨hsane, request_step (by simp [initial])⟩
  obtain ⟨-, -, -, hunreferenced, -⟩ := probe_ends_once hrun
  exact ⟨c, hrun, hlog, hunreferenced 7 hfree⟩

/-! ## A probe whose timer has a negative id -/

def worn (eventcnt : Int) (insertions : Nat) : SchedState SchedCallback :=
  { initial with eventcnt, schedc := [0], schedccnt := 1, allocated := [0], insertions }

def tick (block : Option Nat) : List Label :=
  [.call (.schedAdd 1 0 block (some ⟨0, 0⟩)), .expire (some ⟨5, 0⟩) [] false none]

theorem first_tick : Run Step ⟨none, unused initial⟩ (tick (some 0)) ⟨none, unused (worn 2 1)⟩ :=
  .cons (.call (by simp [Call.Fresh, unused, initial])) (.cons (.expire rfl trivial) .refl)

theorem tick_run (eventcnt : Int) (n : Nat) :
    Run Step ⟨none, unused (worn eventcnt n)⟩ (tick none)
      ⟨none, unused (worn (int32 (eventcnt + 1)) (n + 1))⟩ :=
  .cons (.call nofun) (.cons (.expire rfl trivial) .refl)

theorem tick_wants (b : Option Nat) : ∀ l ∈ tick b, ∀ c ∈ l.calls, c.Wants := by
  simp [tick, Label.calls, Call.Wants]

theorem worn_run (n : Nat) :
    ∃ ls, (∀ l ∈ ls, ∀ c ∈ l.calls, c.Wants) ∧
      Run Step ⟨none, unused initial⟩ ls ⟨none, unused (worn (int32 (n + 2)) (n + 1))⟩ := by
  induction n with
  | zero => exact ⟨_, tick_wants _, first_tick⟩
  | succ n ih =>
    obtain ⟨ls, hwants, run⟩ := ih
    have hnext : int32 (int32 (n + 2) + 1) = int32 ((n + 1 : Nat) + 2) := by
      unfold int32
      omega
    have htick := tick_run (int32 (n + 2)) (n + 1)
    rw [hnext] at htick
    refine ⟨_, fun l hl => ?_, run.trans htick⟩
    exact (List.mem_append.mp hl).elim (hwants l) (tick_wants _ l)

/-- After `2 ^ 31 - 1` timers the next id is negative: the timer of a probe that has been answered
    stays in the queue, with the record that has been freed. -/
theorem negative_tid_stays :
    ∃ ls c, Run Step ⟨none, unused initial⟩ ls c ∧ (∀ l ∈ ls, ∀ c ∈ l.calls, c.Wants) ∧
      c.prog.2.log = [.cb 0, .freed 0 7] ∧ ¬ Unreferenced 7 c.prog := by
  obtain ⟨ls, hwants, run⟩ := worn_run 2147483646
  have hnegative : int32 ((2147483646 : Nat) + 2) = -2147483648 := by decide
  rw [hnegative] at run
  obtain ⟨c, hanswered, hlog, -, hsched⟩ := answered_run
    (requestTimer none (worn (-2147483648) 2147483647)).1
    (requestTimer none (worn (-2147483648) 2147483647)).2 (by decide)
  have hrun := run.trans (hanswered.of_guarded.cons (request_step (b := none) nofun))
  refine ⟨_, c, hrun, ?_, hlog, fun hunreferenced => ?_⟩
  · intro l hl
    rcases List.mem_append.mp hl with hl | hl
    · exact hwants l hl
    · rcases List.mem_cons.mp hl with rfl | hl
      · simpa [Label.calls] using request_wants none
      · rw [answered_calls l hl]
        exact fun c hc => absurd hc List.not_mem_nil
  · have hqueue : c.prog.2.sched.schedq.map Sched.call = [(.timeoutCb, 7)] := by
      rw [hsched]
      decide
    obtain ⟨e, he, hcall⟩ := List.mem_map.mp (hqueue ▸ List.mem_singleton_self _)
    have hcb : e.callback = .timeoutCb := congrArg Prod.fst hcall
    exact hunreferenced.2 e he (by rw [hcb]; nofun) (congrArg Prod.snd hcall)

end Cheops.Probes
