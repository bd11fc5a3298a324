import Cheops.Probes.Links
import Cheops.Scheduler.Invariant

/-! # The invariant of the probes

`Logged` is about the records and what has been logged of them; `Inv` puts it together with the
links, the poll table and the timer queue.  There is one lemma for each callback and each call.
-/

namespace Cheops.Probes

open Cheops.Io Cheops.Lib Cheops.Scheduler

/-! ## The log -/

def Event.isFreed (n : Nat) : Event → Bool
  | .freed serial _ => serial == n
  | _ => false

def Invoked (n : Nat) (log : List Event) : Prop := .cb n ∈ log ∨ .timeout n ∈ log

def Freed (n : Nat) (log : List Event) : Prop := ∃ a, .freed n a ∈ log

/-- Records are numbered apart, and their probes have not been freed or invoked; a probe is freed
    once, and it is if one of its callbacks has been invoked. -/
structure Logged (heap : Nat → Option ProbeData) (started : Nat) (log : List Event) : Prop where
  wants : ∀ a pd, heap a = some pd → pd.p.recieve = true ∧ pd.cb = true ∧ pd.timeoutCb = true
  below : ∀ a pd, heap a = some pd → pd.serial < started
  apart : ∀ a b pd pd', heap a = some pd → heap b = some pd' → pd.serial = pd'.serial → a = b
  gone : ∀ n, Freed n log → n < started ∧ ∀ a pd, heap a = some pd → pd.serial ≠ n
  once : ∀ n, log.countP (Event.isFreed n) ≤ 1
  freed : ∀ n, Invoked n log → Freed n log
  exclusive : ∀ n, ¬ (.cb n ∈ log ∧ .timeout n ∈ log)

section Logged

variable {heap : Nat → Option ProbeData} {started : Nat} {log : List Event} {a : Nat}
  {pd pd' : ProbeData}

theorem update_some {b : Nat} {record : Option ProbeData}
    (h : Function.update heap a record b = some pd) :
    (b = a ∧ record = some pd) ∨ (b ≠ a ∧ heap b = some pd) := by
  by_cases hb : b = a
  · rw [hb, Function.update_self] at h
    exact .inl ⟨hb, h⟩
  · rw [Function.update_of_ne hb] at h
    exact .inr ⟨hb, h⟩

theorem Logged.start (h : Logged heap started log) (hserial : pd.serial = started)
    (hwants : pd.p.recieve = true ∧ pd.cb = true ∧ pd.timeoutCb = true) :
    Logged (Function.update heap a (some pd)) (started + 1) log where
  wants b pd' hpd' := by
    rcases update_some hpd' with ⟨-, heq⟩ | ⟨-, hpd'⟩
    · obtain rfl := Option.some.inj heq
      exact hwants
    · exact h.wants b pd' hpd'
  below b pd' hpd' := by
    rcases update_some hpd' with ⟨-, heq⟩ | ⟨-, hpd'⟩
    · obtain rfl := Option.some.inj heq
      omega
    · have := h.below b pd' hpd'
      omega
  apart b c pd₁ pd₂ h₁ h₂ heq := by
    rcases update_some h₁ with ⟨rfl, e₁⟩ | ⟨-, g₁⟩ <;> rcases update_some h₂ with ⟨e, e₂⟩ | ⟨-, g₂⟩
    · exact e.symm
    · obtain rfl := Option.some.inj e₁
      have := h.below c pd₂ g₂
      omega
    · obtain rfl := Option.some.inj e₂
      have := h.below b pd₁ g₁
      omega
    · exact h.apart b c pd₁ pd₂ g₁ g₂ heq
  gone n hn := by
    obtain ⟨hlt, hgone⟩ := h.gone n hn
    refine ⟨by omega, fun b pd' hpd' => ?_⟩
    rcases update_some hpd' with ⟨-, heq⟩ | ⟨-, hpd'⟩
    · obtain rfl := Option.some.inj heq
      omega
    · exact hgone b pd' hpd'
  once := h.once
  freed := h.freed
  exclusive := h.exclusive

/-- A record changes in what the log does not speak about. -/
theorem Logged.set (h : Logged heap started log) (hpd : heap a = some pd) (pd' : ProbeData)
    (hserial : pd'.serial = pd.serial)
    (hsame : pd'.p = pd.p ∧ pd'.cb = pd.cb ∧ pd'.timeoutCb = pd.timeoutCb) :
    Logged (Function.update heap a (some pd')) started log := by
  have hold {b : Nat} {q : ProbeData} (hq : Function.update heap a (some pd') b = some q) :
      ∃ q', heap b = some q' ∧ q'.serial = q.serial ∧
        q'.p = q.p ∧ q'.cb = q.cb ∧ q'.timeoutCb = q.timeoutCb := by
    rcases update_some hq with ⟨rfl, heq⟩ | ⟨-, hq⟩
    · obtain rfl := Option.some.inj heq
      exact ⟨pd, hpd, hserial.symm, hsame.1.symm, hsame.2.1.symm, hsame.2.2.symm⟩
    · exact ⟨q, hq, rfl, rfl, rfl, rfl⟩
  constructor
  case wants =>
    intro b q hq
    obtain ⟨q', hq', -, hp, hcb, htimeout⟩ := hold hq
    rw [← hp, ← hcb, ← htimeout]
    exact h.wants b q' hq'
  case below =>
    intro b q hq
    obtain ⟨q', hq', hserial, -⟩ := hold hq
    rw [← hserial]
    exact h.below b q' hq'
  case apart =>
    intro b c q₁ q₂ h₁ h₂ heq
    obtain ⟨q₁', h₁, e₁, -⟩ := hold h₁
    obtain ⟨q₂', h₂, e₂, -⟩ := hold h₂
    exact h.apart b c q₁' q₂' h₁ h₂ (by rw [e₁, e₂, heq])
  case gone =>
    intro n hn
    obtain ⟨hlt, hgone⟩ := h.gone n hn
    refine ⟨hlt, fun b q hq => ?_⟩
    obtain ⟨q', hq', hserial, -⟩ := hold hq
    rw [← hserial]
    exact hgone b q' hq'
  case once => exact h.once
  case freed => exact h.freed
  case exclusive => exact h.exclusive

/-- What is logged when something has been sent. -/
theorem Logged.sent (h : Logged heap started log) (n : Nat) :
    Logged heap started (log ++ [.sent n]) := by
  have hmem {e : Event} (he : e ∈ log ++ [.sent n]) (hne : e ≠ .sent n) : e ∈ log := by
    simpa [hne] using he
  exact { h with
    gone := fun m ⟨a, ha⟩ => h.gone m ⟨a, hmem ha (by simp)⟩
    once := fun m => by simpa [List.countP_append, Event.isFreed] using h.once m
    freed := fun m hm => by
      obtain ⟨a, ha⟩ := h.freed m (hm.imp (fun hm => hmem hm (by simp)) fun hm => hmem hm (by simp))
      exact ⟨a, List.mem_append_left _ ha⟩
    exclusive := fun m ⟨hcb, htimeout⟩ =>
      h.exclusive m ⟨hmem hcb (by simp), hmem htimeout (by simp)⟩ }

/-- A callback of a probe has been invoked, and its record has been freed. -/
theorem Logged.done (h : Logged heap started log) (hpd : heap a = some pd) {e : Event}
    (he : e = .cb pd.serial ∨ e = .timeout pd.serial) :
    Logged (Function.update heap a none) started (log ++ [e] ++ [.freed pd.serial a]) := by
  have hnew : ¬ Freed pd.serial log := fun hfreed => (h.gone _ hfreed).2 a pd hpd rfl
  have hold {b : Nat} {q : ProbeData} (hq : Function.update heap a none b = some q) :
      b ≠ a ∧ heap b = some q := by
    rcases update_some hq with ⟨-, heq⟩ | hq
    · cases heq
    · exact hq
  have hinvoked {n : Nat} {f : Event} (hf : f = .cb n ∨ f = .timeout n)
      (hmem : f ∈ log ++ [e] ++ [.freed pd.serial a]) : f ∈ log ∨ (f = e ∧ n = pd.serial) := by
    simp only [List.mem_append, List.mem_singleton] at hmem
    rcases hmem with (hmem | rfl) | rfl
    · exact .inl hmem
    · refine .inr ⟨rfl, ?_⟩
      rcases hf with rfl | rfl <;> rcases he with he | he <;> cases he <;> rfl
    · rcases hf with hf | hf <;> cases hf
  have hfreed {n : Nat} (hn : Freed n (log ++ [e] ++ [.freed pd.serial a])) :
      Freed n log ∨ n = pd.serial := by
    obtain ⟨b, hb⟩ := hn
    simp only [List.mem_append, List.mem_singleton] at hb
    rcases hb with (hb | hb) | hb
    · exact .inl ⟨b, hb⟩
    · rcases he with rfl | rfl <;> cases hb
    · cases hb
      exact .inr rfl
  constructor
  case wants => exact fun b q hq => h.wants b q (hold hq).2
  case below => exact fun b q hq => h.below b q (hold hq).2
  case apart => exact fun b c q₁ q₂ h₁ h₂ => h.apart b c q₁ q₂ (hold h₁).2 (hold h₂).2
  case gone =>
    intro n hn
    rcases hfreed hn with hn | rfl
    · obtain ⟨hlt, hgone⟩ := h.gone n hn
      exact ⟨hlt, fun b q hq => hgone b q (hold hq).2⟩
    · refine ⟨h.below a pd hpd, fun b q hq heq => (hold hq).1 ?_⟩
      exact h.apart b a q pd (hold hq).2 hpd heq
  case once =>
    intro n
    have hone : [e].countP (Event.isFreed n) = 0 := by
      rcases he with rfl | rfl <;> rfl
    rw [List.countP_append, List.countP_append, hone, List.countP_singleton]
    by_cases hn : n = pd.serial
    · have hzero : log.countP (Event.isFreed n) = 0 := by
        rw [List.countP_eq_zero]
        intro f hf hisFreed
        cases f with
        | freed serial b =>
          obtain rfl : serial = n := by simpa [Event.isFreed] using hisFreed
          exact hnew ⟨b, hn ▸ hf⟩
        | _ => cases hisFreed
      rw [hzero]
      split <;> omega
    · have hne : Event.isFreed n (.freed pd.serial a) = false := by
        simpa [Event.isFreed] using Ne.symm hn
      simpa [hne] using h.once n
  case freed =>
    intro n hn
    have hold : Invoked n log ∨ n = pd.serial := by
      rcases hn with hn | hn
      · exact (hinvoked (.inl rfl) hn).imp .inl And.right
      · exact (hinvoked (.inr rfl) hn).imp .inr And.right
    rcases hold with hold | rfl
    · obtain ⟨b, hb⟩ := h.freed n hold
      exact ⟨b, by simp [hb]⟩
    · exact ⟨a, by simp⟩
  case exclusive =>
    intro n ⟨hcb, htimeout⟩
    rcases hinvoked (.inl rfl) hcb with hcb | ⟨hcb, rfl⟩ <;>
      rcases hinvoked (.inr rfl) htimeout with htimeout | ⟨htimeout, hn⟩
    · exact h.exclusive n ⟨hcb, htimeout⟩
    · exact hnew (hn ▸ h.freed n (.inl hcb))
    · exact hnew (h.freed _ (.inr htimeout))
    · rw [← hcb] at htimeout
      cases htimeout

end Logged

/-! ## The invariant -/

/-- `current` is the event whose callback `cheops_sched_runq` runs. -/
structure Inv (current : Option (Sched SchedCallback)) (q : Program) : Prop where
  wf : q.1.WellFormed
  sched : ∃ issued : Nat, issued + 1 < 2 ^ 31 ∧ Scheduler.Inv issued current q.2.sched
  linked : Linked q.1.table (timers q.2.sched) q.2.heap
  logged : Logged q.2.heap q.2.started q.2.log
  fault : q.2.fault = false

variable {current : Option (Sched SchedCallback)} {q : Program}

theorem Inv.distinct (h : Inv current q) : Distinct q.1.table (timers q.2.sched) := by
  obtain ⟨issued, -, queued, -⟩ := h.sched
  have hids := queued.ids
  rw [List.map_append, List.nodup_append, ids_eq] at hids
  refine ⟨fun r hr s hs => h.wf.id_inj hr hs, List.inj_on_of_nodup_map hids.2.1,
    .of_map _ hids.2.1, fun t ht => ?_⟩
  obtain ⟨e, he, rfl⟩ := List.mem_map.mp ht
  have := (queued.range e (List.mem_append_right _ he)).1
  exact Int.lt_of_lt_of_le Int.zero_lt_one this

theorem Inv.eventcnt (h : Inv current q) :
    0 < q.2.sched.eventcnt ∧ q.2.sched.eventcnt < 2 ^ 31 := by
  obtain ⟨issued, hbound, hsched⟩ := h.sched
  rw [hsched.queued.eventcnt, int32_of_range (by omega) (by omega)]
  omega

/-! ## Calls -/

def Call.Wants : Call → Prop
  | .getVersion r => r.cb = true ∧ r.timeoutCb = true ∧ ∀ p ∈ r.p, p.recieve = true
  | _ => True

def Call.addsTimer : Call → Bool
  | .ioAdd .. => false
  | _ => true

structure Called (q q' : Program) (added : Int) : Prop where
  grows : q.1.Grows q'.1
  log : q'.2.log = q.2.log
  eventcnt : q'.2.sched.eventcnt ≤ q.2.sched.eventcnt + added

theorem Inv.schedAdd (h : Inv current q) (hbound : q.2.sched.eventcnt + 1 < 2 ^ 31)
    (when : Int) (callback : SchedCallback) (data : Nat) {block : Option Nat}
    (now : Option Timeval) (fresh : ∀ p ∈ block, p ∉ q.2.sched.allocated) :
    let sched := (cheopsSchedAdd when callback data block now q.2.sched).2
    (∃ issued : Nat, issued + 1 < 2 ^ 31 ∧ Scheduler.Inv issued current sched) ∧
      sched.eventcnt ≤ q.2.sched.eventcnt + 1 := by
  obtain ⟨issued, hissued, hsched⟩ := h.sched
  have heventcnt := hsched.queued.eventcnt
  rw [int32_of_range (by omega) (by omega)] at heventcnt
  obtain ⟨issued', -, hle, hsched'⟩ :=
    cheopsSchedAdd_inv when callback data now hsched (fun p hp => fresh p hp) (by omega)
  refine ⟨⟨issued', by omega, hsched'⟩, ?_⟩
  rw [hsched'.queued.eventcnt, int32_of_range (by omega) (by omega)]
  omega

theorem Inv.ioAdd_other (h : Inv current q) (fd : Int) (events data : Nat) {block : Option Nat}
    (fresh : ∀ p ∈ block, q.1.cell p = none) :
    Inv current ((cheopsIoAdd fd .other events data block q.1).2, q.2) where
  wf := h.wf.add fresh
  sched := h.sched
  linked := h.linked.congr (fun r hcb => by
    rw [cheopsIoAdd_table, List.mem_append]
    refine or_iff_left fun hr => hcb ?_
    rw [Option.mem_toList] at hr
    obtain ⟨p, -, rfl⟩ := Option.map_eq_some_iff.mp hr
    rfl) fun i b => .rfl
  logged := h.logged
  fault := h.fault

theorem Inv.schedAdd_other (h : Inv current q) (hbound : q.2.sched.eventcnt + 1 < 2 ^ 31)
    (when : Int) (data : Nat) {block : Option Nat} (now : Option Timeval)
    (fresh : ∀ p ∈ block, p ∉ q.2.sched.allocated) :
    Inv current (q.1, { q.2 with
      sched := (cheopsSchedAdd when .other data block now q.2.sched).2 }) where
  wf := h.wf
  sched := (h.schedAdd hbound when .other data now fresh).1
  linked := by
    refine h.linked.congr (fun r _ => .rfl) fun i b => ?_
    rcases cheopsSchedAdd_timers when .other data block now q.2.sched with hperm | ⟨-, heq⟩
    · rw [hperm.mem_iff, List.mem_cons]
      exact or_iff_right (by simp)
    · rw [heq]
  logged := h.logged
  fault := h.fault

def added (reg : Nat) (fd : Int) (callback : IoCallback) (events data : Nat)
    (block : Option Nat) : Entries :=
  (block.map fun id => ⟨reg, fd, callback, events, data, id⟩).toList

theorem mem_added {reg : Nat} {fd : Int} {callback : IoCallback} {events data : Nat}
    {block : Option Nat} {r : Registration IoCallback} :
    r ∈ added reg fd callback events data block ↔
      ∃ p, block = some p ∧ r = ⟨reg, fd, callback, events, data, p⟩ := by
  rw [added, Option.mem_toList, Option.map_eq_some_iff]
  exact exists_congr fun p => and_congr_right fun _ => eq_comm

/-- The entries and the timer that a new record knows. -/
theorem LinkedAt.start {T : Entries} {S S' : Timers} {a m n : Nat} {fd : Int} {pd : ProbeData}
    (h : LinkedAt T S a none) (hflags : pd.flags = 0)
    (hS : S'.Perm ((pd.tid, .timeoutCb, a) :: S) ∨ (pd.tid = -1 ∧ S' = S)) :
    LinkedAt (T ++ added m fd .sendCb POLLOUT a pd.soid ++ added n fd .recieveCb POLLIN a pd.siid)
      S' a (some pd) := by
  constructor
  case entries =>
    intro r hr hcb hdata
    rw [List.mem_append, List.mem_append, mem_added, mem_added] at hr
    rcases hr with (hr | ⟨p, hp, rfl⟩) | ⟨p, hp, rfl⟩
    · obtain ⟨_, hnone, -⟩ := h.entries r hr hcb hdata
      cases hnone
    · exact ⟨pd, rfl, hp⟩
    · exact ⟨pd, rfl, hp⟩
  case known =>
    intro pd' hpd' callback p hp
    obtain rfl := Option.some.inj hpd'
    cases callback with
    | sendCb =>
      have soid : pd.soid = some p := hp
      exact ⟨⟨m, fd, .sendCb, POLLOUT, a, p⟩, by simp [mem_added, soid], rfl, rfl, rfl⟩
    | recieveCb =>
      have siid : pd.siid = some p := hp
      exact ⟨⟨n, fd, .recieveCb, POLLIN, a, p⟩, by simp [mem_added, siid], rfl, rfl, rfl⟩
    | other => cases hp
  case timers =>
    intro t ht hcall
    have hnew : t ∉ S := fun ht => by
      obtain ⟨_, hnone, -⟩ := h.timers t ht hcall
      cases hnone
    rcases hS with hperm | ⟨-, rfl⟩
    · obtain rfl := (List.mem_cons.mp (hperm.mem_iff.mp ht)).resolve_right hnew
      exact ⟨pd, rfl, rfl⟩
    · exact absurd ht hnew
  case tid =>
    intro pd' hpd' htid
    obtain rfl := Option.some.inj hpd'
    rcases hS with hperm | ⟨hfailed, -⟩
    · exact hperm.mem_iff.mpr (List.mem_cons_self ..)
    · omega
  case sent =>
    intro pd' hpd' hsent
    obtain rfl := Option.some.inj hpd'
    simp [hflags] at hsent

/-- A probe of the record `pd` at the address `a` has been started. -/
theorem Inv.started (h : Inv current q) {io : Poll IoCallback} {st : SchedState SchedCallback}
    {a : Nat} {pd : ProbeData} (hfree : q.2.heap a = none) (hflags : pd.flags = 0)
    (hserial : pd.serial = q.2.started)
    (hwants : pd.p.recieve = true ∧ pd.cb = true ∧ pd.timeoutCb = true)
    (wf : io.WellFormed) (grows : q.1.Grows io)
    (hT : ∃ m n fd, io.table = q.1.table ++ added m fd .sendCb POLLOUT a pd.soid ++
      added n fd .recieveCb POLLIN a pd.siid)
    (sched : ∃ issued : Nat, issued + 1 < 2 ^ 31 ∧ Scheduler.Inv issued current st)
    (eventcnt : st.eventcnt ≤ q.2.sched.eventcnt + 1)
    (hS : (timers st).Perm ((pd.tid, .timeoutCb, a) :: timers q.2.sched) ∨
      (pd.tid = -1 ∧ timers st = timers q.2.sched)) :
    Inv current (q.opened io st a pd) ∧ Called q (q.opened io st a pd) 1 := by
  obtain ⟨m, n, fd, hT⟩ := hT
  refine ⟨⟨wf, sched, ?_, h.logged.start hserial hwants, h.fault⟩, grows, rfl, eventcnt⟩
  have hself := h.linked a
  rw [hfree] at hself
  change Linked io.table (timers st) (Function.update q.2.heap a (some pd))
  rw [hT]
  refine h.linked.update (fun r hcb hdata => ?_) (fun i b hb => ?_) (hself.start hflags hS)
  · rw [List.mem_append, List.mem_append, mem_added, mem_added]
    refine ⟨fun hr => ?_, fun hr => .inl (.inl hr)⟩
    rcases hr with (hr | ⟨p, -, rfl⟩) | ⟨p, -, rfl⟩
    · exact hr
    · exact absurd rfl hdata
    · exact absurd rfl hdata
  · rcases hS with hperm | ⟨-, heq⟩
    · rw [hperm.mem_iff, List.mem_cons]
      exact or_iff_right fun heq => hb (congrArg (·.2.2) heq)
    · rw [heq]

theorem Inv.getVersion (h : Inv current q) (hbound : q.2.sched.eventcnt + 1 < 2 ^ 31)
    {r : Request} (fresh : (Call.getVersion r).Fresh q) (wants : (Call.getVersion r).Wants) :
    Inv current (Probes.getVersion r q) ∧ Called q (Probes.getVersion r q) 1 := by
  have hsame : Inv current q ∧ Called q q 1 := ⟨h, .refl _, rfl, by omega⟩
  obtain ⟨hblock, htimer, hout, hin⟩ := fresh
  unfold Probes.getVersion
  split
  next p a hp ha =>
    split
    next => exact hsame
    next =>
      have hgrows := (cheopsIoAdd_grows r.socket .sendCb POLLOUT a r.outBlock q.1).trans
        (cheopsIoAdd_grows r.socket .recieveCb POLLIN a r.inBlock _)
      have htimers := cheopsSchedAdd_timers (int32 r.timeoutMs) .timeoutCb a r.timerBlock r.now
        q.2.sched
      have hqueue := h.schedAdd hbound (int32 r.timeoutMs) .timeoutCb a r.now htimer
      obtain ⟨timer, hdef⟩ : ∃ timer, cheopsSchedAdd (int32 r.timeoutMs) .timeoutCb a r.timerBlock
        r.now q.2.sched = timer := ⟨_, rfl⟩
      dsimp only at htimers hqueue ⊢
      rw [hdef] at htimers hqueue ⊢
      refine h.started (hblock a ha) rfl rfl ⟨wants.2.2 p hp, wants.1, wants.2.1⟩ ?_ hgrows ?_
        hqueue.1 hqueue.2 htimers
      · refine Poll.WellFormed.add (h.wf.add hout) fun b hb => ?_
        exact cheopsIoAdd_cell (hin b hb).1 (hin b hb).2 _ _ _ _
      · rw [cheopsIoAdd_table, cheopsIoAdd_table, cheopsIoAdd_fst, cheopsIoAdd_fst]
        exact ⟨_, _, _, rfl⟩
  next => exact hsame

theorem Inv.call (h : Inv current q) {c : Call} (fresh : c.Fresh q) (wants : c.Wants)
    (hbound : c.addsTimer = true → q.2.sched.eventcnt + 1 < 2 ^ 31) :
    Inv current (c.run q) ∧ Called q (c.run q) (if c.addsTimer then 1 else 0) := by
  cases c with
  | getVersion r => exact h.getVersion (hbound rfl) fresh wants
  | ioAdd fd events data block =>
    exact ⟨h.ioAdd_other fd events data fresh, cheopsIoAdd_grows .., rfl,
      by simp [Call.run, Call.addsTimer]⟩
  | schedAdd when data block now =>
    have hinv := h.schedAdd_other (hbound rfl) when data now fresh
    have hqueue := h.schedAdd (hbound rfl) when .other data now fresh
    simp only [Call.run]
    obtain ⟨timer, hdef⟩ : ∃ timer, cheopsSchedAdd when .other data block now q.2.sched = timer :=
      ⟨_, rfl⟩
    dsimp only at hqueue
    rw [hdef] at hinv hqueue ⊢
    exact ⟨hinv, .refl _, rfl, hqueue.2⟩

def timersAdded (calls : List Call) : Int := (calls.filter Call.addsTimer).length

theorem Inv.calls (h : Inv current q) {calls : List Call} (fresh : AllFresh q calls)
    (wants : ∀ c ∈ calls, c.Wants)
    (hbound : q.2.sched.eventcnt + timersAdded calls < 2 ^ 31) :
    Inv current (calls.foldl Call.run q) ∧
      Called q (calls.foldl Call.run q) (timersAdded calls) := by
  induction calls generalizing q with
  | nil => exact ⟨h, .refl _, rfl, by simp [timersAdded]⟩
  | cons c calls ih =>
    have hadded :
        timersAdded (c :: calls) = (if c.addsTimer then 1 else 0) + timersAdded calls := by
      unfold timersAdded
      cases hc : c.addsTimer <;> simp [hc]
      omega
    have hnonneg : 0 ≤ timersAdded calls := Int.natCast_nonneg _
    rw [hadded] at hbound ⊢
    obtain ⟨hinv, hcalled⟩ := h.call fresh.1 (wants c (List.mem_cons_self ..)) fun hc => by
      rw [if_pos hc] at hbound
      omega
    have heventcnt := hcalled.eventcnt
    obtain ⟨hinv', hcalled'⟩ := ih hinv fresh.2 (fun c hc => wants c (List.mem_cons_of_mem _ hc))
      (by omega)
    refine ⟨hinv', hcalled.grows.trans hcalled'.grows, hcalled'.log.trans hcalled.log, ?_⟩
    have heventcnt' := hcalled'.eventcnt
    rw [List.foldl_cons]
    omega

end Cheops.Probes
