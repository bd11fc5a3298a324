import Cheops.Discover.Scan

/-! # Every request keeps its event

Between any two steps a queued request has exactly one `ping_send` event, as long as no run of
`ping_send` stalls and there is memory for the events (`scan_right`); a run that does
stall leaves its request without one (`stalls_not_right`).
-/

namespace Cheops.Discover

open Cheops.Lib Cheops.Scheduler

/-! ## Requests and their events -/

def pings (st : SchedState Callback) : List Nat :=
  (calls st).filterMap fun
    | (.pingSend, data) => some data
    | (.other, _) => none

theorem pings_cons {st st' : SchedState Callback} {data : Nat}
    (h : (calls st').Perm ((.pingSend, data) :: calls st)) :
    (pings st').Perm (data :: pings st) :=
  h.filterMap _

theorem pings_other {st st' : SchedState Callback} {data : Nat}
    (h : (calls st').Perm ((.other, data) :: calls st) ∨ calls st' = calls st) :
    (pings st').Perm (pings st) := by
  rcases h with h | h
  · exact h.filterMap _
  · rw [pings, h]
    exact .refl _

theorem count_pings (st : SchedState Callback) (data : Nat) :
    (pings st).count data = (calls st).count (.pingSend, data) := by
  unfold pings
  induction calls st with
  | nil => rfl
  | cons c cs ih =>
    obtain ⟨callback, d⟩ := c
    cases callback <;> simp [List.count_cons, ih]

structure Scan.Inv (pingRetries : Nat) (s : Scan) : Prop where
  addrs : (s.pingQ.map PingQ.addr).Nodup
  pending : (pings s.sched).Perm (s.pingQ.map PingQ.addr)
  current : ∀ e, s.current = some e → e.callback = .other
  queued : ∀ pp ∈ s.pingQ, pp.Inv pingRetries ∧ pp.runs ≤ pp.log.length
  finished : ∀ pp ∈ s.finished,
    pp.Inv pingRetries ∧ pp.retry = pingRetries + 1 ∧ pp.runs ≤ pp.log.length + 1

/-- Writing a request to its block, or removing it, concerns that request alone. -/
theorem pingQ_split {pp pp' : PingQ} {pingQ : List PingQ} (hpp : pp ∈ pingQ)
    (nodup : (pingQ.map PingQ.addr).Nodup) (haddr : pp'.addr = pp.addr) :
    ∃ pre post, pingQ = pre ++ pp :: post ∧ updatePingQ pp' pingQ = pre ++ pp' :: post ∧
      removePingQ pp' pingQ = pre ++ post := by
  obtain ⟨pre, post, rfl⟩ := List.append_of_mem hpp
  have hne : ∀ q ∈ pre ++ post, q.addr ≠ pp'.addr := by
    intro q hq heq
    have hperm : (pre ++ pp :: post).Perm (pp :: (pre ++ post)) := List.perm_middle
    rw [(hperm.map PingQ.addr).nodup_iff, List.map_cons, List.nodup_cons] at nodup
    exact nodup.1 (List.mem_map.mpr ⟨q, hq, heq.trans haddr⟩)
  have hkeep : ∀ l : List PingQ, (∀ q ∈ l, q.addr ≠ pp'.addr) → updatePingQ pp' l = l := by
    intro l hl
    refine (List.map_congr_left fun q hq => ?_).trans (List.map_id l)
    rw [if_neg (hl q hq), id]
  have hpre := fun q hq => hne q (List.mem_append_left _ hq)
  have hpost := fun q hq => hne q (List.mem_append_right _ hq)
  refine ⟨pre, post, rfl, ?_, ?_⟩
  · have hsplit : updatePingQ pp' (pre ++ pp :: post) =
        updatePingQ pp' pre ++ pp' :: updatePingQ pp' post := by
      simp [updatePingQ, haddr]
    rw [hsplit, hkeep pre hpre, hkeep post hpost]
  · rw [removePingQ, List.eraseP_append_right _ (by simpa using hpre),
      List.eraseP_cons_of_pos (by simp [haddr])]

theorem initial_inv (pingRetries : Nat) : Scan.initial.Inv pingRetries where
  addrs := List.nodup_nil
  pending := .refl _
  current := nofun
  queued := nofun
  finished := nofun

theorem accepted_inv (pingRetries : Nat) {addr eStart eEnd flags : Nat} {pp : PingQ}
    (h : handleDiscoverRequest addr eStart eEnd flags = .ok pp) :
    pp.addr = addr ∧ pp.Inv pingRetries ∧ pp.runs ≤ pp.log.length := by
  unfold handleDiscoverRequest at h
  dsimp only at h
  split at h
  next => cases h
  next =>
    split at h
    next => cases h
    next =>
      cases h
      refine ⟨rfl, ⟨?_, fun x hx => absurd hx List.not_mem_nil,
        fun hlt => absurd hlt (Nat.not_lt_zero _), fun _ => rfl, Nat.two_pow_pos 32⟩,
        Nat.le_refl _⟩
      simp [PingQ.before, PingQ.first]

theorem Scan.Inv.pinged {pingRetries : Nat} {s : Scan} {e : Sched Callback}
    {st : SchedState Callback} {pp : PingQ} {ans : Answers} {now later : Timeval}
    (inv : s.Inv pingRetries) (due : runqTake (some now) s.sched = some (e, st))
    (callback : e.callback = .pingSend) (queued : pp ∈ s.pingQ) (data : pp.addr = e.data)
    (hblock : ans.block ≠ none) (hstalls : ¬ Stalls pingRetries ans pp) :
    (s.pinged e (pingSend pingRetries ans pp st) later).Inv pingRetries := by
  obtain ⟨hpp, hruns⟩ := inv.queued pp queued
  have hcall : e.call = (.pingSend, pp.addr) := by rw [Sched.call, callback, data]
  have hkeeps := pingSend_keeps ans st hpp
  have hcalls := pingSend_calls st later hpp hcall hblock hstalls
  generalize pingSend pingRetries ans pp st = o at hkeeps hcalls ⊢
  have htaken : pings s.sched = pp.addr :: pings st := by
    rw [pings, runqTake_calls due, hcall]
    rfl
  obtain ⟨pre, post, hq, hupdate, hremove⟩ := pingQ_split queued inv.addrs hkeeps.addr
  have haddrs := inv.addrs
  have hpending := inv.pending
  have hmem := inv.queued
  rw [htaken] at hpending
  rw [hq] at haddrs hpending hmem
  have hrest : (pings st).Perm ((pre ++ post).map PingQ.addr) :=
    (hpending.trans (List.perm_middle.map PingQ.addr)).cons_inv
  have hlen := hkeeps.log
  have hcount := hkeeps.runs
  cases hremoved : o.removed with
  | true =>
    simp only [hremoved, ite_true] at hcalls
    constructor
    all_goals simp only [Scan.pinged, hremoved, ite_true, hremove]
    case addrs => exact haddrs.sublist ((List.sublist_cons_self pp post).append_left pre |>.map _)
    case pending =>
      rw [pings, hcalls]
      exact hrest
    case current => exact inv.current
    case queued => exact fun q hq => hmem q (by simp at hq ⊢; tauto)
    case finished =>
      rintro q (_ | ⟨_, hq⟩)
      · exact ⟨hkeeps.inv, hkeeps.expired hremoved, by omega⟩
      · exact inv.finished q hq
  | false =>
    simp only [hremoved, Bool.false_eq_true, ite_false] at hcalls
    constructor
    all_goals simp only [Scan.pinged, hremoved, Bool.false_eq_true, ite_false, hupdate]
    case addrs => simpa [hkeeps.addr] using haddrs
    case pending =>
      refine (pings_cons hcalls).trans ?_
      refine (hrest.cons pp.addr).trans ?_
      rw [← hkeeps.addr]
      have hperm : (pre ++ o.pp :: post).Perm (o.pp :: (pre ++ post)) := List.perm_middle
      exact hperm.symm.map PingQ.addr
    case current => exact inv.current
    case queued =>
      intro q hq
      rcases List.mem_append.mp hq with hq | hq
      · exact hmem q (by simp [hq])
      · rcases List.mem_cons.mp hq with rfl | hq
        · have := hkeeps.processed hremoved
          exact ⟨hkeeps.inv, by omega⟩
        · exact hmem q (by simp [hq])
    case finished => exact inv.finished

theorem Scan.Inv.step {pingRetries : Nat} {s s' : Scan} {label : Label}
    (inv : s.Inv pingRetries) (hstep : Step pingRetries s label s')
    (schedules : Schedules pingRetries s label) : s'.Inv pingRetries := by
  cases hstep with
  | @request addr eStart eEnd flags block now pp fresh accepted =>
    obtain ⟨block, rfl⟩ := Option.ne_none_iff_exists'.mp schedules
    obtain ⟨rfl, hpp⟩ := accepted_inv pingRetries accepted
    refine ⟨List.nodup_cons.mpr ⟨fresh, inv.addrs⟩, ?_, inv.current, ?_, inv.finished⟩
    · refine (pings_cons (cheopsSchedAdd_calls_of_pos _ _ _ _ _ (by decide))).trans ?_
      exact inv.pending.cons _
    · rintro q (_ | ⟨_, hq⟩)
      · exact hpp
      · exact inv.queued q hq
  | refused => exact inv
  | ping idle due callback queued data =>
    exact inv.pinged due callback queued data schedules.1 schedules.2
  | add =>
    refine { inv with pending := ?_ }
    exact (pings_other (cheopsSchedAdd_calls _ _ _ _ _ _)).trans inv.pending
  | @del id own =>
    refine { inv with pending := ?_ }
    rcases cheopsSchedDel_calls id s.sched with ⟨e, he, hid, hperm⟩ | heq
    · rw [Sched.call, own e he hid] at hperm
      exact (pings_other (.inl hperm)).symm.trans inv.pending
    · rw [pings, heq]
      exact inv.pending
  | @take e st now idle due callback =>
    refine ⟨inv.addrs, ?_, ?_, inv.queued, inv.finished⟩
    · have htaken := runqTake_calls due
      rw [Sched.call, callback] at htaken
      exact (pings_other (.inl (.of_eq htaken))).symm.trans inv.pending
    · intro e' he
      cases he
      exact callback
  | @returned e nonzero later running =>
    refine ⟨inv.addrs, ?_, nofun, inv.queued, inv.finished⟩
    have hreturned := runqReturned_calls e nonzero later s.sched
    rw [Sched.call, inv.current e running] at hreturned
    exact (pings_other hreturned).trans inv.pending

/-! ## Whole runs -/

def Scan.requests (s : Scan) : List (Nat × Nat × Nat) := (s.pingQ ++ s.finished).map PingQ.asked

theorem accepted_request {addr eStart eEnd flags : Nat} {block : Option Nat} {now : Timeval} :
    (Label.request addr eStart eEnd flags block now).accepted =
      (handleDiscoverRequest addr eStart eEnd flags).toOption.map PingQ.asked := by
  rw [Label.accepted]

theorem pinged_requests {pingRetries : Nat} {s : Scan} {e : Sched Callback} {pp : PingQ}
    {o : PingSent} {later : Timeval} (inv : s.Inv pingRetries) (queued : pp ∈ s.pingQ)
    (keeps : o.Keeps pingRetries pp) : (s.pinged e o later).requests.Perm s.requests := by
  obtain ⟨pre, post, hq, hupdate, hremove⟩ := pingQ_split queued inv.addrs keeps.addr
  simp only [Scan.requests, Scan.pinged, hupdate, hremove]
  rw [hq]
  cases o.removed with
  | true =>
    simp only [ite_true, List.map_append, List.map_cons, keeps.asked, List.append_assoc,
      List.cons_append]
    rw [← List.append_assoc]
    exact List.perm_middle.trans (by
      rw [List.append_assoc]
      exact List.perm_middle.symm)
  | false => simp [keeps.asked]

theorem step_requests {pingRetries : Nat} {s s' : Scan} {label : Label}
    (inv : s.Inv pingRetries) (hstep : Step pingRetries s label s') :
    s'.requests.Perm (label.accepted.toList ++ s.requests) := by
  cases hstep with
  | request fresh accepted =>
    rw [accepted_request, accepted]
    exact .refl _
  | refused error =>
    rw [accepted_request, error]
    exact .refl _
  | ping idle due callback queued data =>
    exact pinged_requests inv queued (pingSend_keeps _ _ (inv.queued _ queued).1)
  | add | del | take | returned => exact .refl _

/-- Each request that was accepted is queued, with exactly one event in the timer queue, or
    finished.  It has processed a beginning of its pairs in order, and all of them when it
    is finished; every run of `ping_send` but the one that removes it has processed some, so
    there are no more runs than pairs before that one. -/
structure Scan.Right (pingRetries : Nat) (history : List Label) (s : Scan) : Prop where
  pending : ∀ pp ∈ s.pingQ, (calls s.sched).count (.pingSend, pp.addr) = 1
  owned : ∀ addr, (.pingSend, addr) ∈ calls s.sched → ∃ pp ∈ s.pingQ, pp.addr = addr
  queued : ∀ pp ∈ s.pingQ,
    pp.log.map Processed.pair <+: pairs pingRetries pp.first pp.last ∧ pp.runs ≤ pp.log.length
  finished : ∀ pp ∈ s.finished,
    pp.log.map Processed.pair = pairs pingRetries pp.first pp.last ∧
      pp.runs ≤ pp.log.length + 1
  treated : ∀ pp ∈ s.pingQ ++ s.finished, ∀ x ∈ pp.log, x.Right pp.flags
  accepted : s.requests.Perm (history.filterMap Label.accepted)

theorem Scan.Inv.right {pingRetries : Nat} {history : List Label} {s : Scan}
    (inv : s.Inv pingRetries) (requests : s.requests.Perm (history.filterMap Label.accepted)) :
    s.Right pingRetries history where
  pending pp hpp := by
    rw [← count_pings, inv.pending.count_eq]
    exact List.count_eq_one_of_mem inv.addrs (List.mem_map_of_mem hpp)
  owned addr hmem := by
    have hping : addr ∈ pings s.sched := by
      rw [← List.count_pos_iff, count_pings, List.count_pos_iff]
      exact hmem
    exact List.mem_map.mp (inv.pending.mem_iff.mp hping)
  queued pp hpp := by
    obtain ⟨hinv, hruns⟩ := inv.queued pp hpp
    rw [hinv.processed]
    refine ⟨before_beginning ?_, hruns⟩
    by_cases hle : pp.retry ≤ pingRetries
    · exact .inl hle
    · exact .inr (hinv.expired (by omega))
  finished pp hpp := by
    obtain ⟨hinv, hretry, hruns⟩ := inv.finished pp hpp
    rw [hinv.processed]
    exact ⟨before_expired hretry (hinv.expired (by omega)).2, hruns⟩
  treated pp hpp := by
    rcases List.mem_append.mp hpp with hpp | hpp
    · exact (inv.queued pp hpp).1.right
    · exact (inv.finished pp hpp).1.right
  accepted := requests

/-- In every run in which no event is lost, between any two steps. -/
theorem scan_right {pingRetries : Nat} {history : List Label} {s : Scan}
    (run : Run (Guarded (Schedules pingRetries) (Step pingRetries)) Scan.initial history s) :
    s.Right pingRetries history := by
  have hinv := run.invariant
    (I := fun history s =>
      s.Inv pingRetries ∧ s.requests.Perm (history.filterMap Label.accepted))
    ⟨initial_inv pingRetries, .refl _⟩
    fun history s label s' _ ⟨inv, requests⟩ ⟨schedules, hstep⟩ => by
      refine ⟨inv.step hstep schedules, (step_requests inv hstep).trans ?_⟩
      rw [List.filterMap_append]
      refine (requests.append_left _).trans (List.perm_append_comm.trans (.of_eq ?_))
      cases h : label.accepted <;> simp [h]
  exact hinv.1.right hinv.2

/-- A request for three addresses, the first of them in the cache, which are sent to twice. -/
theorem scan_right_cached :
    ∃ history, ∃ s : Scan, s.finished.map PingQ.asked = [(0x0100000a, 0x0300000a, 0)] ∧
      s.finished.map (fun pp => pp.log.map fun x => (x.pair, x.treatment)) =
        [[((0, 0x0a000001), .reply), ((0, 0x0a000002), .echo), ((0, 0x0a000003), .echo),
          ((1, 0x0a000001), .nothing), ((1, 0x0a000002), .echo), ((1, 0x0a000003), .echo)]] ∧
      s.Right 1 history := by
  let pp₀ : PingQ :=
    { addr := 1, start := 0x0100000a, end_ := 0x0300000a, current := 0x0a000001, retry := 0
      flags := 0, time := 0, log := [], runs := 0
      start_le := by decide, le_end := by decide }
  let ans (t : Timeval) : Answers := ⟨fun ip => ip = 0x0100000a, t, some 12, t⟩
  let next (t : Timeval) (pp : PingQ) : PingQ := (pingSend 1 (ans t) pp initial).pp
  let pp₁ : PingQ := next ⟨100, 1000⟩ pp₀
  let pp₂ : PingQ := next ⟨103, 1000⟩ pp₁
  let pp₃ : PingQ := next ⟨103, 80000⟩ pp₂
  let pp₄ : PingQ := next ⟨106, 80000⟩ pp₃
  let ping (t : Timeval) (pp : PingQ) : Label := .ping t pp (ans t) t
  let history : List Label :=
    [.request 1 0x0a000001 0x0a000003 0 (some 11) ⟨100, 0⟩, ping ⟨100, 1000⟩ pp₀,
      ping ⟨103, 1000⟩ pp₁, ping ⟨103, 80000⟩ pp₂, ping ⟨106, 80000⟩ pp₃, ping ⟨106, 160000⟩ pp₄]
  have hexec : (history.foldlM (Scan.exec 1) Scan.initial).any (fun s =>
      s.finished.map PingQ.asked == [(0x0100000a, 0x0300000a, 0)] &&
      s.finished.map (fun pp => pp.log.map fun x => (x.pair, x.treatment)) ==
        [[((0, 0x0a000001), .reply), ((0, 0x0a000002), .echo), ((0, 0x0a000003), .echo),
          ((1, 0x0a000001), .nothing), ((1, 0x0a000002), .echo), ((1, 0x0a000003), .echo)]]) =
      true := by
    decide +kernel
  obtain ⟨s, hrun, hs⟩ := (Option.any_eq_true _ _).mp hexec
  simp only [Bool.and_eq_true, beq_iff_eq] at hs
  refine ⟨history, s, hs.1, hs.2, scan_right ((Run.of_exec exec_sound hrun).guarded ?_)⟩
  -- no record of the time is 3000 milliseconds old
  have hno (pp : PingQ) (t : Timeval)
      (h : pp.time = 0 ∨ usub32 (milliseconds t) pp.time ≠ PING_TIMEOUT_INTERVAL) :
      (ans t).block ≠ none ∧ ¬ Stalls 1 (ans t) pp :=
    ⟨nofun, fun ⟨_, recorded, old⟩ => h.elim recorded fun other => other old⟩
  simp only [history, List.forall_mem_cons]
  exact ⟨fun _ => nofun, fun _ => hno pp₀ _ (by decide), fun _ => hno pp₁ _ (by decide +kernel),
    fun _ => hno pp₂ _ (by decide +kernel), fun _ => hno pp₃ _ (by decide +kernel),
    fun _ => hno pp₄ _ (by decide +kernel), nofun⟩

/-! ## The lost event -/

/-- Where `ping_send` stalls, the request is left without an event. -/
theorem stalls_not_right {pingRetries : Nat} {history : List Label} {s s' : Scan} {pp : PingQ}
    {ans : Answers} {now later : Timeval} (inv : s.Inv pingRetries)
    (hstep : Step pingRetries s (.ping now pp ans later) s')
    (hstalls : Stalls pingRetries ans pp) : ¬ s'.Right pingRetries history := by
  cases hstep with
  | @ping e st _ _ _ _ idle due callback queued data =>
    intro right
    have hcall : e.call = (.pingSend, pp.addr) := by rw [Sched.call, callback, data]
    have hpp := (inv.queued pp queued).1
    obtain ⟨hkept, hcalls⟩ := hstalls.loses hpp st e later
    have haddr := (pingSend_keeps ans st hpp).addr
    generalize pingSend pingRetries ans pp st = o at right hkept hcalls haddr
    obtain ⟨pre, post, -, hupdate, -⟩ := pingQ_split queued inv.addrs haddr
    have hpending := right.pending o.pp (by simp [Scan.pinged, hkept, hupdate])
    have htaken : pings s.sched = pp.addr :: pings st := by
      rw [pings, runqTake_calls due, hcall]
      rfl
    have hnodup := inv.pending.nodup_iff.mpr inv.addrs
    rw [htaken, List.nodup_cons] at hnodup
    simp only [Scan.pinged, hcalls, haddr, ← count_pings] at hpending
    rw [List.count_eq_zero_of_not_mem hnodup.1] at hpending
    omega

def Label.readings : Label → List Timeval
  | .request _ _ _ _ _ now => [now]
  | .ping now _ ans later => [now, ans.now, ans.addNow, later]
  | .add _ _ _ now => now.toList
  | .del _ => []
  | .take now => now.toList
  | .returned _ later => later.toList

/-- A request for two addresses, to be sent to twice.  The second round begins when the record of
    the first one's end is 3000 milliseconds old, and then nothing is left to run for it. -/
theorem scan_loses_event :
    ∃ history s, Run (Step 1) Scan.initial history s ∧
      (history.flatMap Label.readings).Pairwise (fun a b => sooner b a = false) ∧
      s.pingQ.map (fun pp => pp.log.map Processed.pair) =
        [[(0, 0x0a000001), (0, 0x0a000002), (1, 0x0a000001)]] ∧
      calls s.sched = [] ∧ ¬ s.Right 1 history := by
  let pp₀ : PingQ :=
    { addr := 1, start := 0x0100000a, end_ := 0x0200000a, current := 0x0a000001, retry := 0
      flags := FLAG_FORCE, time := 0, log := [], runs := 0
      start_le := by decide, le_end := by decide }
  let ans (t : Timeval) : Answers := ⟨fun _ => false, t, some 12, t⟩
  let pp₁ : PingQ := (pingSend 1 (ans ⟨100, 1000⟩) pp₀ initial).pp
  let pp₂ : PingQ := (pingSend 1 (ans ⟨103, 1000⟩) pp₁ initial).pp
  let history : List Label :=
    [.request 1 0x0a000001 0x0a000002 FLAG_FORCE (some 11) ⟨100, 0⟩,
     .ping ⟨100, 1000⟩ pp₀ (ans ⟨100, 1000⟩) ⟨100, 1000⟩,
     .ping ⟨103, 1000⟩ pp₁ (ans ⟨103, 1000⟩) ⟨103, 1000⟩,
     .ping ⟨106, 1000⟩ pp₂ (ans ⟨106, 1000⟩) ⟨106, 1000⟩]
  have hexec : (history.foldlM (Scan.exec 1) Scan.initial).any (fun s =>
      s.pingQ.map (fun pp => pp.log.map Processed.pair) ==
        [[(0, 0x0a000001), (0, 0x0a000002), (1, 0x0a000001)]] &&
      calls s.sched == []) = true := by
    decide +kernel
  obtain ⟨s, hrun, hs⟩ := (Option.any_eq_true _ _).mp hexec
  simp only [Bool.and_eq_true, beq_iff_eq] at hs
  refine ⟨history, s, Run.of_exec exec_sound hrun, by decide +kernel, hs.1, hs.2, ?_⟩
  intro right
  obtain ⟨pp, hpp⟩ : ∃ pp, pp ∈ s.pingQ :=
    List.exists_mem_of_ne_nil _ fun hnil => by simp [hnil] at hs
  have := right.pending pp hpp
  rw [hs.2] at this
  cases this

end Cheops.Discover
