import Cheops.Discover.Chain

/-! # How long a discover request lasts (`agent-discover.c`)

`ping_send` with the results of `sendto`, and with `retry` in 32 bits.  A negative result makes the
loop try the same address again, four times in a call at most, so the loop comes to what it comes to
when all is sent (`pingLoop32_eq`); but with the largest number of retries no `retry` exceeds it,
and then a request lasts forever (`ping_send_ends_iff`).
-/

namespace Cheops.Discover

open Cheops.Lib Cheops.Scheduler

/-! ## The code -/

/-- `current` advances, and `retry` with it in 32 bits. -/
def PingQ.advance32 (cached : Nat → Bool) (pp : PingQ) : PingQ :=
  { pp.advance cached with retry := (pp.advance cached).retry % 2 ^ 32 }

/-- The loop of `ping_send`, for at most so many turns.  `sendto n` is the result of the next
    call of `sendto`. -/
def pingLoop32 (pingRetries : Nat) (cached : Nat → Bool) (sendto : Nat → Int) :
    Nat → Nat → Nat → PingQ → Option (Bool × PingQ)
  | 0, _, _, _ => none
  | turns + 1, n, negativeRetry, pp =>
    if pp.retry > pingRetries then some (true, pp)
    else if pp.sends cached then
      if sendto n < 0 ∧ negativeRetry < 4 then
        pingLoop32 pingRetries cached sendto turns (n + 1) (negativeRetry + 1) pp
      else some (false, pp.advance32 cached)
    else pingLoop32 pingRetries cached sendto turns n negativeRetry (pp.advance32 cached)

/-- `ping_send` behind its loop. -/
def pingReschedule (pingRetries : Nat) (ans : Answers) (left : Bool × PingQ)
    (sched : SchedState Callback) : PingSent :=
  let (removed, pp) := left
  let add (when : Nat) : SchedState Callback :=
    (cheopsSchedAdd (when : Int) .pingSend pp.addr ans.block (some ans.addNow) sched).2
  if removed then { ret := false, removed, pp, sched }
  else if pp.current = ntohl pp.end_ then
    { ret := false, removed, pp, sched := add (pingDelay pingRetries ans.now pp) }
  else if pp.current = ntohl pp.start then
    { ret := false, removed, pp := { pp with time := milliseconds ans.now }
      sched := add PING_INTERVAL }
  else { ret := true, removed, pp, sched }

/-- `ping_send`, unless its loop takes more turns. -/
def pingSend32 (pingRetries : Nat) (ans : Answers) (sendto : Nat → Int) (turns : Nat) (pp : PingQ)
    (sched : SchedState Callback) : Option PingSent :=
  (pingLoop32 pingRetries ans.cached sendto turns 0 0 pp.counted).map fun left =>
    pingReschedule pingRetries ans left sched

/-- The steps, with any results of `sendto`.  A call of `ping_send` is a step if its loop ends. -/
inductive Step32 (pingRetries : Nat) : Scan → Label → Scan → Prop
  | ping {s : Scan} {e : Sched Callback} {st : SchedState Callback} {pp : PingQ} {ans : Answers}
      {now later : Timeval} {sendto : Nat → Int} {turns : Nat} {o : PingSent}
      (idle : s.current = none) (due : runqTake (some now) s.sched = some (e, st))
      (callback : e.callback = .pingSend) (queued : pp ∈ s.pingQ) (data : pp.addr = e.data)
      (sent : pingSend32 pingRetries ans sendto turns pp st = some o) :
      Step32 pingRetries s (.ping now pp ans later) (s.pinged e o later)
  | other {s s' : Scan} {label : Label} (step : Step pingRetries s label s')
      (notPing : ∀ now pp ans later, label ≠ .ping now pp ans later) :
      Step32 pingRetries s label s'

/-! ## What is meant -/

/-- A request that has processed all it may is not on `pingQ` any more, and one that is on it has an
    event, whose call of `ping_send` comes to an end: it removes the request or has processed
    more. -/
structure Scan.Ends (pingRetries : Nat) (s : Scan) : Prop where
  ends : ∀ pp ∈ s.pingQ, ∀ ans sendto st, ∃ turns o,
    pingSend32 pingRetries ans sendto turns pp st = some o ∧
      (o.removed = true ∨ pp.log.length < o.pp.log.length)
  pending : ∀ pp ∈ s.pingQ, (calls s.sched).count (.pingSend, pp.addr) = 1
  processed : ∀ pp ∈ s.pingQ ++ s.finished,
    pp.log.length ≤ (pingRetries + 1) * (pp.last + 1 - pp.first)

/-! ## The loop -/

variable {pingRetries : Nat} {cached : Nat → Bool} {sendto : Nat → Int} {pp : PingQ}

theorem pingSend_eq (ans : Answers) (sched : SchedState Callback) :
    pingSend pingRetries ans pp sched =
      pingReschedule pingRetries ans (pingLoop pingRetries ans.cached pp.counted) sched := rfl

/-- Below the largest number of retries nothing is lost. -/
theorem advance32_eq (word : pingRetries < 2 ^ 32 - 1) (within : pp.retry ≤ pingRetries) :
    pp.advance32 cached = pp.advance cached := by
  have bound : (pp.advance cached).retry < 2 ^ 32 := by
    by_cases last : pp.current = pp.last
    · rw [(advance_last cached last).2]
      omega
    · rw [(advance_next cached last).2]
      omega
  rw [PingQ.advance32, Nat.mod_eq_of_lt bound]

/-- Whatever `sendto` returns, the loop ends where it would. -/
theorem pingLoop32_eq (word : pingRetries < 2 ^ 32 - 1) {turns n negativeRetry : Nat}
    {left : Bool × PingQ}
    (ended : pingLoop32 pingRetries cached sendto turns n negativeRetry pp = some left) :
    left = pingLoop pingRetries cached pp := by
  induction turns generalizing n negativeRetry pp with
  | zero => cases ended
  | succ turns ih =>
    rw [pingLoop32] at ended
    rw [pingLoop]
    split at ended
    case isTrue expired =>
      rw [if_pos expired]
      exact (Option.some.inj ended).symm
    case isFalse within =>
      rw [if_neg within]
      split at ended
      case isTrue sends =>
        rw [if_pos sends]
        split at ended
        case isTrue failed =>
          have later := ih ended
          rw [pingLoop, if_neg within, if_pos sends] at later
          exact later
        case isFalse =>
          rw [advance32_eq word (Nat.not_lt.mp within)] at ended
          exact (Option.some.inj ended).symm
      case isFalse skips =>
        rw [if_neg skips]
        rw [advance32_eq word (Nat.not_lt.mp within)] at ended
        exact ih ended

/-- An address is given up, or sent to, after five turns at most. -/
theorem pingLoop32_sends (within : ¬ pp.retry > pingRetries) (sends : pp.sends cached = true)
    (n negativeRetry : Nat) :
    ∃ turns left, pingLoop32 pingRetries cached sendto turns n negativeRetry pp = some left := by
  by_cases few : negativeRetry < 4
  case neg =>
    refine ⟨1, (false, pp.advance32 cached), ?_⟩
    rw [pingLoop32, if_neg within, if_pos sends, if_neg fun failed => few failed.2]
  case pos =>
    by_cases failed : sendto n < 0
    case neg =>
      refine ⟨1, (false, pp.advance32 cached), ?_⟩
      rw [pingLoop32, if_neg within, if_pos sends, if_neg fun both => failed both.1]
    case pos =>
      obtain ⟨turns, left, ended⟩ := pingLoop32_sends within sends (n + 1) (negativeRetry + 1)
      refine ⟨turns + 1, left, ?_⟩
      rw [pingLoop32, if_neg within, if_pos sends, if_pos ⟨failed, few⟩, ended]
termination_by 4 - negativeRetry

/-- Below the largest number of retries the loop ends. -/
theorem pingLoop32_ends (word : pingRetries < 2 ^ 32 - 1) (n negativeRetry : Nat) :
    ∃ turns, pingLoop32 pingRetries cached sendto turns n negativeRetry pp =
      some (pingLoop pingRetries cached pp) := by
  have ends : ∃ turns left,
      pingLoop32 pingRetries cached sendto turns n negativeRetry pp = some left := by
    fun_induction pingLoop pingRetries cached pp with
    | case1 pp expired => exact ⟨1, (true, pp), by rw [pingLoop32, if_pos expired]⟩
    | case2 pp within sends => exact pingLoop32_sends within sends n negativeRetry
    | case3 pp within skips ih =>
      obtain ⟨turns, left, ended⟩ := ih
      refine ⟨turns + 1, left, ?_⟩
      rw [pingLoop32, if_neg within, if_neg skips, advance32_eq word (Nat.not_lt.mp within), ended]
  obtain ⟨turns, left, ended⟩ := ends
  exact ⟨turns, pingLoop32_eq word ended ▸ ended⟩

/-! ## Runs -/

/-- A step is one with all sent. -/
theorem Step32.step (word : pingRetries < 2 ^ 32 - 1) {s s' : Scan} {label : Label}
    (hstep : Step32 pingRetries s label s') : Step pingRetries s label s' := by
  cases hstep with
  | @ping e st pp ans now later sendto turns o idle due callback queued data sent =>
    obtain ⟨left, ended, rfl⟩ := Option.map_eq_some_iff.mp sent
    rw [pingLoop32_eq word ended, ← pingSend_eq]
    exact .ping idle due callback queued data
  | other step => exact step

theorem length_pairs (pingRetries first last : Nat) :
    (pairs pingRetries first last).length = (pingRetries + 1) * (last + 1 - first) := by
  unfold pairs
  induction pingRetries + 1 with
  | zero => simp
  | succ rounds ih =>
    rw [List.range_succ, List.flatMap_append, List.length_append, ih, Nat.succ_mul]
    simp [roundPairs]

/-- The invariant of every run that loses no event. -/
theorem scan_inv {history : List Label} {s : Scan}
    (run : Run (Guarded (Schedules pingRetries) (Step pingRetries)) Scan.initial history s) :
    s.Inv pingRetries :=
  run.state_invariant (initial_inv pingRetries) fun _ _ _ inv hstep => inv.step hstep.2 hstep.1

theorem ends_of_run (word : pingRetries < 2 ^ 32 - 1) {history : List Label} {s : Scan}
    (run : Run (Guarded (Schedules pingRetries) (Step pingRetries)) Scan.initial history s) :
    s.Ends pingRetries where
  ends pp queued ans sendto st := by
    obtain ⟨turns, ended⟩ := @pingLoop32_ends _ ans.cached sendto pp.counted word 0 0
    have keeps := pingSend_keeps ans st ((scan_inv run).queued pp queued).1
    refine ⟨turns, pingSend pingRetries ans pp st, ?_, ?_⟩
    · rw [pingSend32, ended, Option.map_some, ← pingSend_eq]
    · cases removed : (pingSend pingRetries ans pp st).removed with
      | true => exact .inl rfl
      | false => exact .inr (keeps.processed removed)
  pending := (scan_right run).pending
  processed := by
    have right := scan_right run
    intro pp member
    rw [← length_pairs, ← List.length_map Processed.pair]
    rcases List.mem_append.mp member with queued | finished
    · exact (right.queued pp queued).1.length_le
    · exact Nat.le_of_eq (congrArg List.length (right.finished pp finished).1)

/-! ## The largest number of retries -/

/-- It is never exceeded, so no call removes a request. -/
theorem pingLoop32_max {turns n negativeRetry : Nat} {left : Bool × PingQ}
    (word : pp.retry < 2 ^ 32)
    (ended : pingLoop32 (2 ^ 32 - 1) cached sendto turns n negativeRetry pp = some left) :
    left.1 = false := by
  induction turns generalizing n negativeRetry pp with
  | zero => cases ended
  | succ turns ih =>
    rw [pingLoop32, if_neg (by omega)] at ended
    split at ended
    case isTrue =>
      split at ended
      case isTrue => exact ih word ended
      case isFalse =>
        cases ended
        rfl
    case isFalse => exact ih (Nat.mod_lt _ (by decide)) ended

/-- And where everything is in the cache, no call ends. -/
theorem pingLoop32_cached {turns n negativeRetry : Nat} (word : pp.retry < 2 ^ 32)
    (unforced : pp.flags &&& FLAG_FORCE = 0) :
    pingLoop32 (2 ^ 32 - 1) (fun _ => true) sendto turns n negativeRetry pp = none := by
  induction turns generalizing n negativeRetry pp with
  | zero => rfl
  | succ turns ih =>
    have skips : ¬ pp.sends (fun _ => true) = true := by
      simp [PingQ.sends, PingQ.mustPing, unforced]
    obtain ⟨continues, -⟩ := advance_continues (fun _ => true) pp
    rw [pingLoop32, if_neg (by omega), if_neg skips]
    apply ih (Nat.mod_lt _ (by decide))
    rw [← unforced, ← continues.flags]
    rfl

def cachedRequest : PingQ where
  addr := 1
  start := 0x0100000a
  end_ := 0x0100000a
  current := 0x0a000001
  retry := 0
  flags := 0
  time := 0
  log := []
  runs := 0
  start_le := by decide
  le_end := by decide

def requested : Scan where
  pingQ := [cachedRequest]
  current := none
  sched := (cheopsSchedAdd 1 .pingSend 1 (some 11) (some ⟨100, 0⟩) Scheduler.initial).2
  finished := []

theorem requested_run (pingRetries : Nat) :
    Run (Guarded (Schedules pingRetries) (Step32 pingRetries)) Scan.initial
      [.request 1 0x0a000001 0x0a000001 0 (some 11) ⟨100, 0⟩] requested := by
  have accepted : handleDiscoverRequest 1 0x0a000001 0x0a000001 0 = .ok cachedRequest := by
    decide +kernel
  refine .single ⟨Option.some_ne_none 11, .other (.request ?_ accepted) ?_⟩
  · exact List.not_mem_nil
  · intro now pp ans later same
    cases same

/-- For a word of retries: in all runs that lose no event the calls of `ping_send` end and the
    requests with them, exactly if it is not the largest one. -/
theorem ping_send_ends_iff (pingRetries : BitVec 32) :
    (∀ history s, Run (Guarded (Schedules pingRetries.toNat) (Step32 pingRetries.toNat))
      Scan.initial history s → s.Ends pingRetries.toNat) ↔ pingRetries ≠ 0xffffffff := by
  constructor
  · rintro ends rfl
    obtain ⟨turns, o, ended, -⟩ := (ends _ _ (requested_run _)).ends cachedRequest
      List.mem_cons_self ⟨fun _ => true, ⟨100, 0⟩, none, ⟨100, 0⟩⟩ (fun _ => 1) Scheduler.initial
    obtain ⟨left, loop, -⟩ := Option.map_eq_some_iff.mp ended
    have never := @pingLoop32_cached (fun _ => 1) cachedRequest.counted turns 0 0 (by decide) rfl
    exact Option.some_ne_none _ (loop.symm.trans never)
  · intro small history s run
    have word : pingRetries.toNat < 2 ^ 32 - 1 := by
      have bound := pingRetries.isLt
      have other : pingRetries.toNat ≠ 2 ^ 32 - 1 := fun same =>
        small (BitVec.eq_of_toNat_eq same)
      omega
    exact ends_of_run word (run.mono fun _ _ _ hstep => ⟨hstep.1, hstep.2.step word⟩)

/-- With -1 retries a call of `ping_send` for a cached address goes on forever. -/
theorem ping_send_forever :
    ∃ history s, Run (Guarded (Schedules (2 ^ 32 - 1)) (Step32 (2 ^ 32 - 1))) Scan.initial
        history s ∧
      cachedRequest ∈ s.pingQ ∧ ∀ turns, pingSend32 (2 ^ 32 - 1)
        ⟨fun _ => true, ⟨100, 0⟩, none, ⟨100, 0⟩⟩ (fun _ => 1) turns cachedRequest s.sched =
          none := by
  refine ⟨_, _, requested_run _, List.mem_cons_self, fun turns => ?_⟩
  have never := @pingLoop32_cached (fun _ => 1) cachedRequest.counted turns 0 0 (by decide) rfl
  rw [pingSend32, never]
  rfl

end Cheops.Discover
