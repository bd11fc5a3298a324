import Cheops.Probes.Agent

/-! # What a probe of the agent leaves behind

A request that has ended should have released all that it held.  `probe_released_iff` says that it
has if and only if its probe ended because its time was up: `my_probe_timeout` frees the
`probe_user_data`, `my_probe_callback` does not, and `get_version` calls neither where it starts no
probe.  The socket is lost, too, where it could not be connected.

The runs of the agent are runs of its probes (`AgentStep.base`), so that what is known of these is
known of them.  `Owned` is the invariant of the rest.
-/

namespace Cheops.Probes

open Cheops.Io Cheops.Lib Cheops.Scheduler

/-! ## The probes by themselves -/

section Base

variable {q : AgentProgram} {calls : List AgentCall}

theorem AgentCall.run_base (q : AgentProgram) (c : AgentCall) :
    (c.run q).base = c.base.run q.base := by
  cases c <;> rfl

theorem agentCalls_base (calls : List AgentCall) (q : AgentProgram) :
    (calls.foldl AgentCall.run q).base = (calls.map AgentCall.base).foldl Call.run q.base := by
  induction calls generalizing q with
  | nil => rfl
  | cons c calls ih =>
    rw [List.foldl_cons, List.map_cons, List.foldl_cons, ih, AgentCall.run_base]

theorem AllAgentFresh.base (fresh : AllAgentFresh q calls) :
    AllFresh q.base (calls.map AgentCall.base) := by
  induction calls generalizing q with
  | nil => trivial
  | cons c calls ih =>
    refine ⟨fresh.1.1, ?_⟩
    rw [← AgentCall.run_base]
    exact ih fresh.2

theorem agentInvoke_base (calls : List AgentCall) (ret : Bool) (version : Option (List UInt8))
    (s : Slot IoCallback) (q : AgentProgram) :
    let r := agentInvoke calls ret version s q
    (r.1, r.2.base) = invoke (calls.map AgentCall.base) ret s q.base := by
  unfold agentInvoke invoke
  cases s.callback with
  | sendCb => rfl
  | recieveCb => rfl
  | other =>
    dsimp only
    rw [agentCalls_base]

theorem agentInvokeSched_base (calls : List AgentCall) (ret : Bool) (e : Sched SchedCallback)
    (q : AgentProgram) :
    let r := agentInvokeSched calls ret e q
    (r.1, r.2.base) = invokeSched (calls.map AgentCall.base) ret e q.base := by
  unfold agentInvokeSched invokeSched
  cases e.callback with
  | timeoutCb => rfl
  | other =>
    dsimp only
    rw [agentCalls_base]

theorem ioTurn_base {invoke' : Slot IoCallback → AgentProgram → Bool × AgentProgram}
    {invoke : Slot IoCallback → Program → Bool × Program}
    (same : ∀ s q, ((invoke' s q).1, (invoke' s q).2.base) = invoke s q.base) (x : Nat)
    (q : AgentProgram) : AgentProgram.base (ioTurn invoke' x q) = ioTurn invoke x q.base := by
  unfold ioTurn AgentProgram.base
  dsimp only
  split
  · rfl
  · cases q.1.cell (q.1.slot x).id with
    | none => rfl
    | some v =>
      have called := same (q.1.slot x) (q.1.calling v, q.2)
      dsimp only [AgentProgram.base] at called ⊢
      rw [← called]
      rfl

/-- A step of the agent is one of its probes. -/
theorem AgentStep.base {c c' : AgentConfig} {l : AgentLabel} (step : AgentStep c l c') :
    Step c.base l.base c'.base := by
  cases step with
  | @call q call fresh =>
    have step := Step.call fresh.1
    rw [← AgentCall.run_base] at step
    exact step
  | poll => exact .poll
  | @turn q x calls ret version hx fresh =>
    have step : Step ⟨some x, q.base⟩ (.turn (calls.map AgentCall.base) ret) _ :=
      .turn hx fresh.base
    rw [← ioTurn_base (agentInvoke_base calls ret version)] at step
    exact step
  | finish hx => exact .finish hx
  | @expire q now later calls ret e sched due fresh =>
    have step : Step ⟨none, q.base⟩ (.expire now (calls.map AgentCall.base) ret later) _ :=
      .expire due fresh.base
    have called := agentInvokeSched_base calls ret e (q.1, q.2.1.withSched sched, q.2.2)
    dsimp only at called
    rw [show (q.base.1, q.base.2.withSched sched) =
      AgentProgram.base (q.1, q.2.1.withSched sched, q.2.2) from rfl, ← called] at step
    exact step

end Base

/-! ## What is held, and what has been released -/

def Served.TimedOut (r : Served) (log : List Event) : Prop :=
  ∃ n, r.serial = some n ∧ .timeout n ∈ log

/-- The request has ended: no probe serves it, or one that has called one of its callbacks. -/
def Served.HasEnded (r : Served) (log : List Event) : Prop := ∀ n, r.serial = some n → Invoked n log

def Served.due (log : List Event) (r : Served) : Resource → Nat
  | .userData => if ∃ n ∈ r.serial, .timeout n ∈ log then 1 else 0
  | .probeData =>
    match r.serial with
    | none => r.record.toNat
    | some n => if .cb n ∈ log ∨ .timeout n ∈ log then 1 else 0
  | .socket => if ∃ n ∈ r.serial, .cb n ∈ log ∨ .timeout n ∈ log then 1 else 0

structure ProbeData.Holds (pd : ProbeData) (res : Resources) : Prop where
  served : res.served[res.request pd.serial]? = some ⟨some pd.serial, true, true⟩
  userData : ∃ d, res.userData pd.userData = some d ∧ d.request = res.request pd.serial
  open_ : 0 ≤ pd.socket
  socket : res.sockets pd.socket = some (res.request pd.serial)

structure Owned (heap : Nat → Option ProbeData) (started : Nat) (log : List Event)
    (res : Resources) : Prop where
  holds : ∀ a pd, heap a = some pd → pd.Holds res
  serves : ∀ (k : Nat) (r : Served) (n : Nat), res.served[k]? = some r → r.serial = some n →
    r.record = true ∧ r.socket = true ∧ res.request n = k ∧ n < started
  waits : ∀ (k : Nat) (r : Served) (n : Nat), res.served[k]? = some r → r.serial = some n →
    ¬ Invoked n log → ∃ a pd, heap a = some pd ∧ pd.serial = n
  invoked : ∀ n, Invoked n log → n < started
  count : ∀ (k : Nat) (r : Served), res.served[k]? = some r →
    ∀ x, res.released.count (k, x) = r.due log x
  known : ∀ e ∈ res.released, e.1 < res.served.length
  fault : res.fault = false

section Owned

variable {heap : Nat → Option ProbeData} {started : Nat} {log log' : List Event}
  {res res' : Resources} {a : Nat} {pd : ProbeData} {r : Served}

theorem Served.due_congr (same : ∀ n, r.serial = some n →
    (.cb n ∈ log' ↔ .cb n ∈ log) ∧ (.timeout n ∈ log' ↔ .timeout n ∈ log)) (x : Resource) :
    r.due log' x = r.due log x := by
  unfold Served.due
  cases serial : r.serial with
  | none => cases x <;> simp
  | some n =>
    obtain ⟨cb, timeout⟩ := same n serial
    cases x <;> simp [cb, timeout]

/-- A record that still is what its request needs may change, and events that are no calls of its
    callbacks be logged. -/
theorem Owned.set (own : Owned heap started log res) (here : heap a = some pd) {pd' : ProbeData}
    (serial : pd'.serial = pd.serial) (userData : pd'.userData = pd.userData)
    (socket : pd'.socket = pd.socket)
    (same : ∀ n, (.cb n ∈ log' ↔ .cb n ∈ log) ∧ (.timeout n ∈ log' ↔ .timeout n ∈ log)) :
    Owned (Function.update heap a (some pd')) started log' res := by
  constructor
  case holds =>
    intro b pd₁ there
    rcases update_some there with ⟨rfl, eq⟩ | ⟨-, there⟩
    · cases eq
      obtain ⟨served, ud, nonneg, open_⟩ := own.holds b pd here
      rw [← serial] at served ud open_
      rw [← userData] at ud
      rw [← socket] at nonneg open_
      exact ⟨served, ud, nonneg, open_⟩
    · exact own.holds b pd₁ there
  case serves => exact own.serves
  case waits =>
    intro k r n at_ serves waiting
    have before : ¬ Invoked n log := fun invoked =>
      waiting (invoked.imp (same n).1.mpr (same n).2.mpr)
    obtain ⟨b, pd₁, there, number⟩ := own.waits k r n at_ serves before
    by_cases changed : b = a
    case pos =>
      subst changed
      cases here.symm.trans there
      exact ⟨b, pd', Function.update_self .., serial.trans number⟩
    case neg => exact ⟨b, pd₁, (Function.update_of_ne changed ..).trans there, number⟩
  case invoked => exact fun n invoked => own.invoked n (invoked.imp (same n).1.mp (same n).2.mp)
  case count =>
    intro k r at_ x
    rw [own.count k r at_ x, Served.due_congr fun n _ => same n]
  case known => exact own.known
  case fault => exact own.fault

/-- The probe at `a` is done: it has released `xs`, which is what it should have by its log, and
    not touched what other probes need. -/
theorem Owned.done (xs : List Resource) (own : Owned heap started log res)
    (here : heap a = some pd)
    (apart : ∀ b pd', heap b = some pd' → b ≠ a → pd'.serial ≠ pd.serial)
    (fresh : ¬ Invoked pd.serial log) (invoked : Invoked pd.serial log')
    (same : ∀ n, n ≠ pd.serial →
      (.cb n ∈ log' ↔ .cb n ∈ log) ∧ (.timeout n ∈ log' ↔ .timeout n ∈ log))
    (served : res'.served = res.served) (request : res'.request = res.request)
    (released : res'.released = res.released ++ xs.map (res.request pd.serial, ·))
    (count : ∀ x, xs.count x = Served.due log' ⟨some pd.serial, true, true⟩ x)
    (userData : ∀ u, u ≠ pd.userData → res'.userData u = res.userData u)
    (sockets : ∀ fd, fd ≠ pd.socket → res'.sockets fd = res.sockets fd)
    (fault : res'.fault = false) :
    Owned (Function.update heap a none) started log' res' := by
  have holds := own.holds a pd here
  have other {b : Nat} {pd' : ProbeData} (there : Function.update heap a none b = some pd') :
      b ≠ a ∧ heap b = some pd' := by
    rcases update_some there with ⟨-, eq⟩ | there
    · cases eq
    · exact there
  constructor
  case holds =>
    intro b pd' there
    obtain ⟨away, there⟩ := other there
    obtain ⟨served', ⟨d, ud, mine⟩, nonneg, open_⟩ := own.holds b pd' there
    -- its request is another one, and so are its record and its socket
    have differs : res.request pd'.serial ≠ res.request pd.serial := by
      intro eq
      rw [eq, holds.served] at served'
      simp only [Option.some.injEq, Served.mk.injEq, and_true] at served'
      exact apart b pd' there away served'.symm
    refine ⟨by rwa [served, request], ⟨d, ?_, by rwa [request]⟩, nonneg, ?_⟩
    · refine (userData _ fun eq => differs ?_).trans ud
      obtain ⟨d', ud', mine'⟩ := holds.userData
      rw [eq, ud'] at ud
      cases ud
      rw [← mine, ← mine']
    · rw [request]
      refine (sockets _ fun eq => differs ?_).trans open_
      rw [eq, holds.socket] at open_
      exact (Option.some.inj open_).symm
  case serves =>
    rw [served, request]
    exact own.serves
  case waits =>
    intro k r n at_ serves waiting
    rw [served] at at_
    have alive : n ≠ pd.serial := fun eq => waiting (eq ▸ invoked)
    -- a probe that has not ended is another one, and was under way before
    have before : ¬ Invoked n log := fun invoked =>
      waiting (invoked.imp (same n alive).1.mpr (same n alive).2.mpr)
    obtain ⟨b, pd', there, number⟩ := own.waits k r n at_ serves before
    refine ⟨b, pd', (Function.update_of_ne ?_ ..).trans there, number⟩
    rintro rfl
    cases here.symm.trans there
    exact alive number.symm
  case invoked =>
    intro n invoked
    by_cases mine : n = pd.serial
    case pos => exact mine ▸ (own.serves _ _ _ holds.served rfl).2.2.2
    case neg => exact own.invoked n (invoked.imp (same n mine).1.mp (same n mine).2.mp)
  case count =>
    intro k r at_ x
    rw [served] at at_
    rw [released, List.count_append, own.count k r at_ x]
    by_cases mine : k = res.request pd.serial
    case pos =>
      subst mine
      cases holds.served.symm.trans at_
      -- nothing was due before one of its callbacks had been called
      have none_before : Served.due log ⟨some pd.serial, true, true⟩ x = 0 := by
        simp only [Invoked, not_or] at fresh
        cases x <;> simp [Served.due, fresh]
      have counted : (xs.map (res.request pd.serial, ·)).count (res.request pd.serial, x) =
          xs.count x :=
        List.count_map_of_injective xs _ (Prod.mk_right_injective _) x
      rw [none_before, counted, count x, Nat.zero_add]
    case neg =>
      have absent : (k, x) ∉ xs.map (res.request pd.serial, ·) := by
        intro member
        obtain ⟨y, -, eq⟩ := List.mem_map.mp member
        exact mine (congrArg Prod.fst eq).symm
      rw [List.count_eq_zero_of_not_mem absent, Nat.add_zero]
      refine (Served.due_congr (fun n serves => ?_) x).symm
      refine same n fun eq => mine ?_
      exact (eq ▸ (own.serves k r n at_ serves).2.2.1).symm
  case known =>
    intro e member
    rw [served]
    rw [released] at member
    rcases List.mem_append.mp member with member | member
    · exact own.known e member
    · obtain ⟨x, -, rfl⟩ := List.mem_map.mp member
      exact (List.getElem?_eq_some_iff.mp holds.served).1
  case fault => exact fault

/-! ## Callbacks -/

/-- What `recieve_cb` or `timeout_cb` closes and frees at its end. -/
theorem ProbeData.Holds.close (holds : pd.Holds res) :
    (res.close pd.socket).freeProbeData (res.request pd.serial) = { res with
      sockets := Function.update res.sockets pd.socket none
      released := res.released ++
        [Resource.socket, .probeData].map (res.request pd.serial, ·) } := by
  unfold Resources.close
  rw [if_pos holds.open_, holds.socket]
  dsimp only [Resources.freeProbeData, List.map_cons, List.map_nil]
  rw [List.append_assoc]
  rfl

@[simp] theorem myProbeTimeout_request (ud : Nat) (res : Resources) :
    (res.myProbeTimeout ud).request = res.request := by
  unfold Resources.myProbeTimeout Resources.freeUserData
  split <;> rfl

theorem ProbeData.Holds.myProbeTimeout (holds : pd.Holds res) :
    ((res.myProbeTimeout pd.userData).close pd.socket).freeProbeData (res.request pd.serial) =
      { res with
        userData := Function.update res.userData pd.userData none
        sockets := Function.update res.sockets pd.socket none
        released := res.released ++
          [Resource.userData, .socket, .probeData].map (res.request pd.serial, ·) } := by
  obtain ⟨d, ud, mine⟩ := holds.userData
  unfold Resources.myProbeTimeout Resources.freeUserData
  rw [ud]
  dsimp only
  unfold Resources.close
  rw [if_pos holds.open_]
  dsimp only
  rw [holds.socket]
  dsimp only [Resources.freeProbeData, List.map_cons, List.map_nil]
  rw [List.append_assoc, List.append_assoc, mine]
  rfl

/-- `my_probe_callback` finds its `probe_user_data`; it sends a reply, if there is a version. -/
theorem ProbeData.Holds.myProbeCallback (holds : pd.Holds res) (ip port : Nat)
    (version : Option (List UInt8)) :
    ∃ replies, res.myProbeCallback ip port version pd.userData = { res with replies } := by
  obtain ⟨d, ud, -⟩ := holds.userData
  unfold Resources.myProbeCallback
  cases version with
  | none => exact ⟨res.replies, rfl⟩
  | some version =>
    rw [ud]
    exact ⟨_, rfl⟩

end Owned

section Callbacks

variable {q : AgentProgram} {data : Nat} {pd : ProbeData}

abbrev AgentProgram.Owned (q : AgentProgram) : Prop :=
  Probes.Owned q.2.1.heap q.2.1.started q.2.1.log q.2.2

theorem agentSendCb_owned (own : q.Owned) (here : q.2.1.heap data = some pd) :
    (agentSendCb data q).2.Owned := by
  have eq := sendCb_eq (q := q.base) here
  unfold agentSendCb
  rw [eq]
  refine own.set here rfl rfl rfl fun n => ?_
  cases send : pd.p.send <;> simp [World.called, AgentProgram.base]

section Done

variable {heap : Nat → Option ProbeData} {started : Nat} {log : List Event} {a : Nat}

theorem Logged.never (logged : Logged heap started log) (here : heap a = some pd) :
    ¬ Invoked pd.serial log :=
  fun invoked => (logged.gone _ (logged.freed _ invoked)).2 a pd here rfl

theorem Logged.others (logged : Logged heap started log) (here : heap a = some pd) (b : Nat)
    (pd' : ProbeData) (there : heap b = some pd') (away : b ≠ a) : pd'.serial ≠ pd.serial :=
  fun same => away (logged.apart b a pd' pd there here same)

/-- The log when a probe has been answered. -/
theorem mem_answered {n m : Nat} :
    (Event.cb m ∈ log ++ [Event.cb n] ++ [Event.freed n a] ↔ Event.cb m ∈ log ∨ m = n) ∧
      (Event.timeout m ∈ log ++ [Event.cb n] ++ [Event.freed n a] ↔ Event.timeout m ∈ log) := by
  simp

/-- The log when the time of a probe was up. -/
theorem mem_expired {n m : Nat} :
    (Event.cb m ∈ log ++ [Event.timeout n] ++ [Event.freed n a] ↔ Event.cb m ∈ log) ∧
      (Event.timeout m ∈ log ++ [Event.timeout n] ++ [Event.freed n a] ↔
        Event.timeout m ∈ log ∨ m = n) := by
  simp

end Done

theorem agentRecieveCb_owned (own : q.Owned)
    (logged : Logged q.2.1.heap q.2.1.started q.2.1.log) (version : Option (List UInt8))
    (here : q.2.1.heap data = some pd) : (agentRecieveCb version data q).2.Owned := by
  obtain ⟨recieve, cb, -⟩ := logged.wants _ pd here
  unfold agentRecieveCb
  by_cases flags : pd.flags &&& PROBE_DATA_FLAGS_SEND = 0
  case pos =>
    rw [recieveCb_unsent (q := q.base) here recieve cb flags]
    dsimp only
    rw [here]
    exact own
  case neg =>
    have holds := own.holds _ pd here
    obtain ⟨replies, replied⟩ := holds.myProbeCallback pd.ip pd.p.port version
    have holds' : pd.Holds { q.2.2 with replies } :=
      ⟨holds.served, holds.userData, holds.open_, holds.socket⟩
    have closed := holds'.close
    rw [recieveCb_sent (q := q.base) here recieve cb flags]
    dsimp only
    rw [here]
    simp only [recieve, cb, Bool.and_self, if_true, Bool.false_eq_true, if_false]
    rw [replied, closed]
    have never := logged.never here
    change Probes.Owned (Function.update q.2.1.heap data none) q.2.1.started
      (q.2.1.log ++ [Event.cb pd.serial] ++ [Event.freed pd.serial data]) _
    refine own.done [.socket, .probeData] here (logged.others here) never
      (.inl (mem_answered.1.mpr (.inr rfl)))
      (fun n other => ⟨mem_answered.1.trans (or_iff_left other), mem_answered.2⟩) rfl rfl rfl
      (fun x => ?_) (fun u _ => rfl) (fun fd other => Function.update_of_ne other ..) own.fault
    simp only [Invoked, not_or] at never
    cases x <;> simp [Served.due, never]

theorem agentTimeoutCb_owned (own : q.Owned)
    (logged : Logged q.2.1.heap q.2.1.started q.2.1.log) (here : q.2.1.heap data = some pd) :
    (agentTimeoutCb data q).2.Owned := by
  obtain ⟨-, -, timeoutCb⟩ := logged.wants _ pd here
  have closed := (own.holds _ pd here).myProbeTimeout
  have never := logged.never here
  unfold agentTimeoutCb
  rw [timeoutCb_eq (q := q.base) here]
  dsimp only
  rw [here]
  simp only [timeoutCb, if_true]
  rw [myProbeTimeout_request, closed]
  change Probes.Owned (Function.update q.2.1.heap data none) q.2.1.started
    (q.2.1.log ++ [Event.timeout pd.serial] ++ [Event.freed pd.serial data]) _
  refine own.done [.userData, .socket, .probeData] here (logged.others here) never
    (.inr (mem_expired.2.mpr (.inr rfl)))
    (fun n other => ⟨mem_expired.1, mem_expired.2.trans (or_iff_left other)⟩) rfl rfl rfl
    (fun x => ?_) (fun u other => Function.update_of_ne other ..)
    (fun fd other => Function.update_of_ne other ..) own.fault
  cases x <;> simp [Served.due]

end Callbacks

/-! ## Requests -/

section Requests

variable {heap : Nat → Option ProbeData} {started : Nat} {log : List Event}
  {res res' : Resources} {a : Nat} {pd : ProbeData} {r : Served}

structure Resources.Adds (res res' : Resources) (r : Served) : Prop where
  served : res'.served = res.served ++ [r]
  userData : ∀ u d, res.userData u = some d → res'.userData u = some d
  sockets : ∀ fd k, res.sockets fd = some k → res'.sockets fd = some k
  fault : res'.fault = res.fault

theorem ProbeData.Holds.adds (holds : pd.Holds res) (adds : res.Adds res' r)
    (request : res'.request pd.serial = res.request pd.serial) : pd.Holds res' := by
  obtain ⟨served, ⟨d, ud, mine⟩, nonneg, open_⟩ := holds
  refine ⟨?_, ⟨d, adds.userData _ d ud, by rwa [request]⟩, nonneg, ?_⟩
  · have bound := (List.getElem?_eq_some_iff.mp served).1
    rwa [request, adds.served, List.getElem?_append_left bound]
  · rw [request]
    exact adds.sockets _ _ open_

/-- The request before the new one, or the new one. -/
theorem Resources.Adds.cases (adds : res.Adds res' r) {k : Nat} {r' : Served}
    (at_ : res'.served[k]? = some r') :
    res.served[k]? = some r' ∨ (k = res.served.length ∧ r' = r) := by
  rw [adds.served] at at_
  rcases Nat.lt_trichotomy k res.served.length with before | rfl | behind
  · rw [List.getElem?_append_left before] at at_
    exact .inl at_
  · rw [List.getElem?_concat_length] at at_
    exact .inr ⟨rfl, (Option.some.inj at_).symm⟩
  · rw [List.getElem?_eq_none] at at_
    · cases at_
    · rw [List.length_append, List.length_singleton]
      omega

/-- Nothing has been released yet for the new request. -/
theorem Owned.count_next (own : Owned heap started log res) (x : Resource) :
    res.released.count (res.served.length, x) = 0 :=
  List.count_eq_zero_of_not_mem fun member => Nat.lt_irrefl _ (own.known _ member)

/-- A request that no probe serves. -/
theorem Owned.refused (own : Owned heap started log res) (adds : res.Adds res' r)
    (alone : r.serial = none) (request : res'.request = res.request)
    (released : res'.released = res.released ++
      List.replicate r.record.toNat (res.served.length, .probeData)) :
    Owned heap started log res' := by
  constructor
  case holds => exact fun b pd there => (own.holds b pd there).adds adds (by rw [request])
  case serves =>
    intro k r' n at_ serves
    rcases adds.cases at_ with at_ | ⟨-, rfl⟩
    · rw [request]
      exact own.serves k r' n at_ serves
    · rw [alone] at serves
      cases serves
  case waits =>
    intro k r' n at_ serves waiting
    rcases adds.cases at_ with at_ | ⟨-, rfl⟩
    · exact own.waits k r' n at_ serves waiting
    · rw [alone] at serves
      cases serves
  case invoked => exact own.invoked
  case count =>
    intro k r' at_ x
    rw [released, List.count_append, List.count_replicate]
    rcases adds.cases at_ with at_ | ⟨rfl, rfl⟩
    · have before : k < res.served.length := (List.getElem?_eq_some_iff.mp at_).1
      rw [own.count k r' at_ x, if_neg (by simp; omega), Nat.add_zero]
    · rw [own.count_next x]
      cases x <;> simp [Served.due, alone]
  case known =>
    intro e member
    rw [adds.served, List.length_append, List.length_singleton]
    rw [released] at member
    rcases List.mem_append.mp member with member | member
    · exact Nat.lt_succ_of_lt (own.known e member)
    · rw [List.eq_of_mem_replicate member]
      exact Nat.lt_succ_self _
  case fault => exact adds.fault.trans own.fault

/-- A request that is served by the next probe. -/
theorem Owned.start (own : Owned heap started log res)
    (adds : res.Adds res' ⟨some started, true, true⟩) (free : heap a = none)
    (serial : pd.serial = started)
    (request : res'.request = Function.update res.request started res.served.length)
    (holds : pd.Holds res') (released : res'.released = res.released) :
    Owned (Function.update heap a (some pd)) (started + 1) log res' := by
  have below {n : Nat} (before : n < started) : res'.request n = res.request n := by
    rw [request, Function.update_of_ne (Nat.ne_of_lt before)]
  constructor
  case holds =>
    intro b pd' there
    rcases update_some there with ⟨-, eq⟩ | ⟨-, there⟩
    · cases eq
      exact holds
    · have holds' := own.holds b pd' there
      exact holds'.adds adds (below (own.serves _ _ _ holds'.served rfl).2.2.2)
  case serves =>
    intro k r' n at_ serves
    rcases adds.cases at_ with at_ | ⟨rfl, rfl⟩
    · obtain ⟨record, socket, mine, before⟩ := own.serves k r' n at_ serves
      exact ⟨record, socket, (below before).trans mine, Nat.lt_succ_of_lt before⟩
    · cases serves
      exact ⟨rfl, rfl, by rw [request, Function.update_self], Nat.lt_succ_self _⟩
  case waits =>
    intro k r' n at_ serves waiting
    rcases adds.cases at_ with at_ | ⟨rfl, rfl⟩
    · obtain ⟨b, pd', there, number⟩ := own.waits k r' n at_ serves waiting
      refine ⟨b, pd', (Function.update_of_ne ?_ ..).trans there, number⟩
      rintro rfl
      rw [free] at there
      cases there
    · cases serves
      exact ⟨a, pd, Function.update_self .., serial⟩
  case invoked => exact fun n invoked => Nat.lt_succ_of_lt (own.invoked n invoked)
  case count =>
    intro k r' at_ x
    rw [released]
    rcases adds.cases at_ with at_ | ⟨rfl, rfl⟩
    · exact own.count k r' at_ x
    · have never : ¬ Invoked started log := fun invoked =>
        Nat.lt_irrefl _ (own.invoked started invoked)
      simp only [Invoked, not_or] at never
      rw [own.count_next x]
      cases x <;> simp [Served.due, never]
  case known =>
    intro e member
    rw [released] at member
    rw [adds.served, List.length_append, List.length_singleton]
    exact Nat.lt_succ_of_lt (own.known e member)
  case fault => exact adds.fault.trans own.fault

/-- The socket that `make_nonblock_stream_socket` returns is the one it has opened. -/
theorem makeNonblockStreamSocket_eq {ans : SocketAnswers}
    (made : ¬ makeNonblockStreamSocket ans < 0) :
    ∃ sock : Nat, ans.socket = some sock ∧ makeNonblockStreamSocket ans = sock := by
  unfold makeNonblockStreamSocket at made ⊢
  cases socket : ans.socket with
  | none => simp [socket] at made
  | some sock =>
    refine ⟨sock, rfl, ?_⟩
    simp only [socket] at made ⊢
    split
    · simp_all
    · split
      · simp_all
      · split
        · simp_all
        · rfl

/-- Where `get_version` starts no probe, the program stays as it is. -/
theorem getVersion_refused {r : Request} {q : Program}
    (refused : r.p = none ∨ r.block = none ∨ r.socket < 0) : getVersion r q = q := by
  unfold getVersion
  split
  next p a isP isBlock =>
    rw [isP, isBlock] at refused
    exact if_pos (by simpa using refused)
  next => rfl

/-- Where it starts one, that is the next one. -/
theorem getVersion_started {r : Request} {q : Program} {p : Probe} {a : Nat} (isP : r.p = some p)
    (isBlock : r.block = some a) (made : ¬ r.socket < 0) :
    ∃ io sched pd, getVersion r q = q.opened io sched a pd ∧ pd.serial = q.2.started ∧
      pd.userData = r.userData ∧ pd.socket = r.socket := by
  unfold getVersion
  rw [isP, isBlock]
  dsimp only
  rw [if_neg made]
  exact ⟨_, _, _, rfl, rfl, rfl, rfl⟩

theorem handleProbeRequest_owned {q : AgentProgram} (own : q.Owned) (r : ProbeRequest)
    (fresh : (AgentCall.probe r).Fresh q) : (handleProbeRequest r q).Owned := by
  obtain ⟨⟨block, -⟩, unused⟩ := fresh
  obtain ⟨newData, newSocket⟩ := unused r rfl
  have kept {ud : ProbeUserData} (u : Nat) (d : ProbeUserData)
      (there : q.2.2.userData u = some d) :
      Function.update q.2.2.userData r.userData (some ud) u = some d := by
    refine (Function.update_of_ne ?_ ..).trans there
    rintro rfl
    rw [newData] at there
    cases there
  have opened {sock : Nat} (socket : r.socket.socket = some sock) (fd : Int) (k : Nat)
      (there : q.2.2.sockets fd = some k) :
      Function.update q.2.2.sockets sock (some q.2.2.served.length) fd = some k := by
    refine (Function.update_of_ne ?_ ..).trans there
    rintro rfl
    rw [newSocket sock socket] at there
    cases there
  unfold handleProbeRequest Resources.getVersion
  dsimp only
  cases isP : r.request.p with
  | none =>
    rw [getVersion_refused (.inl isP)]
    cases record : r.record with
    | none =>
      exact own.refused (r := ⟨none, false, false⟩) ⟨rfl, kept, fun _ _ => id, rfl⟩ rfl rfl
        (List.append_nil _).symm
    | some a =>
      exact own.refused (r := ⟨none, true, false⟩) ⟨rfl, kept, fun _ _ => id, rfl⟩ rfl rfl rfl
  | some p =>
    cases record : r.record with
    | none =>
      rw [getVersion_refused (.inr (.inl record))]
      exact own.refused (r := ⟨none, false, false⟩) ⟨rfl, kept, fun _ _ => id, rfl⟩ rfl rfl
        (List.append_nil _).symm
    | some a =>
      dsimp only
      by_cases made : r.request.socket < 0
      case pos =>
        rw [getVersion_refused (.inr (.inr made)), if_pos made]
        cases socket : r.socket.socket with
        | none =>
          exact own.refused (r := ⟨none, true, false⟩) ⟨rfl, kept, fun _ _ => id, rfl⟩ rfl rfl rfl
        | some sock =>
          exact own.refused (r := ⟨none, true, true⟩) ⟨rfl, kept, opened socket, rfl⟩ rfl rfl rfl
      case neg =>
        obtain ⟨sock, socket, isSock⟩ := makeNonblockStreamSocket_eq made
        obtain ⟨io, sched, pd, eq, serial, userData, isSocket⟩ :=
          getVersion_started (q := q.base) isP record made
        rw [eq, if_neg made, socket]
        dsimp only [Program.opened]
        refine own.start ⟨rfl, kept, opened socket, rfl⟩ (block a record) serial rfl ?_ rfl
        have mine : pd.socket = sock := isSocket.trans isSock
        constructor
        case served =>
          rw [serial]
          dsimp only [AgentProgram.base]
          rw [Function.update_self, List.getElem?_concat_length]
        case userData =>
          rw [serial, userData]
          refine ⟨_, Function.update_self .., ?_⟩
          dsimp only [AgentProgram.base]
          rw [Function.update_self]
        case open_ => omega
        case socket =>
          rw [serial, mine]
          dsimp only [AgentProgram.base]
          rw [Function.update_self, Function.update_self]

theorem AgentCall.run_owned {q : AgentProgram} (own : q.Owned) {c : AgentCall} (fresh : c.Fresh q) :
    (c.run q).Owned := by
  cases c with
  | probe r => exact handleProbeRequest_owned own r fresh
  | ioAdd => exact own
  | schedAdd => exact own

theorem agentCalls_owned {calls : List AgentCall} {q : AgentProgram} (own : q.Owned)
    (fresh : AllAgentFresh q calls) : (calls.foldl AgentCall.run q).Owned := by
  induction calls generalizing q with
  | nil => exact own
  | cons c calls ih => exact ih (AgentCall.run_owned own fresh.1) fresh.2

end Requests

/-! ## Runs -/

def AgentLabel.calls : AgentLabel → List AgentCall
  | .call c => [c]
  | .turn calls _ _ => calls
  | .expire _ calls _ _ => calls
  | _ => []

/-- The counter of the timer ids does not overflow in a step. -/
def AgentSane (c : AgentConfig) (l : AgentLabel) : Prop :=
  c.prog.2.1.sched.eventcnt + timersAdded (l.calls.map AgentCall.base) < 2 ^ 31

theorem AgentCall.base_wants (c : AgentCall) : c.base.Wants := by
  cases c with
  | probe r =>
    refine ⟨rfl, rfl, fun p found => initProbes_recieve p ?_⟩
    have isP : getProbe initProbes r.arguments.port = some p := found
    exact List.mem_of_find?_eq_some isP
  | ioAdd => trivial
  | schedAdd => trivial

theorem AgentLabel.base_calls (l : AgentLabel) : l.base.calls = l.calls.map AgentCall.base := by
  cases l <;> rfl

theorem AgentSane.base {c : AgentConfig} {l : AgentLabel} (sane : AgentSane c l) :
    Sane c.base l.base := by
  refine ⟨?_, fun call member => ?_⟩
  · rw [AgentLabel.base_calls]
    exact sane
  · rw [AgentLabel.base_calls] at member
    obtain ⟨call, -, rfl⟩ := List.mem_map.mp member
    exact call.base_wants

structure AgentConfig.Kept (c : AgentConfig) : Prop where
  idle : Idle c.base
  owned : c.prog.Owned

theorem AgentConfig.Kept.turn {q : AgentProgram} {x : Nat} (kept : AgentConfig.Kept ⟨some x, q⟩)
    (hx : x < q.1.fdcnt) {calls : List AgentCall}
    (fresh : AllAgentFresh (q.1.calling x, q.2) calls) (ret : Bool)
    (version : Option (List UInt8)) :
    AgentProgram.Owned (ioTurn (agentInvoke calls ret version) x q) := by
  have inv : Inv none q.base := kept.idle.1
  have wf : q.1.WellFormed := inv.wf
  have linked : Linked q.1.table (timers q.2.1.sched) q.2.1.heap := inv.linked
  have own : AgentProgram.Owned (q.1.calling x, q.2) := kept.owned
  by_cases ready : (q.1.slot x).revents = 0
  case pos =>
    rw [show ioTurn (agentInvoke calls ret version) x q = q from if_pos ready]
    exact kept.owned
  case neg =>
    have turned := ioTurn_ready wf (agentInvoke calls ret version) q.2 hx ready
    rw [show ioTurn (agentInvoke calls ret version) x q = _ from turned]
    unfold agentInvoke
    cases callback : (q.1.slot x).callback with
    | sendCb =>
      obtain ⟨pd, here, -⟩ := linked.entry (slot_mem_table hx) (by rw [callback]; nofun)
      exact agentSendCb_owned own here
    | recieveCb =>
      obtain ⟨pd, here, -⟩ := linked.entry (slot_mem_table hx) (by rw [callback]; nofun)
      exact agentRecieveCb_owned own inv.logged version here
    | other => exact agentCalls_owned own fresh

theorem AgentConfig.Kept.expire {q : AgentProgram} (kept : AgentConfig.Kept ⟨none, q⟩)
    {now later : Option Timeval} {e : Sched SchedCallback} {sched : SchedState SchedCallback}
    (due : runqTake now q.2.1.sched = some (e, sched)) {calls : List AgentCall}
    (fresh : AllAgentFresh (q.1, q.2.1.withSched sched, q.2.2) calls) (ret : Bool) :
    (agentFinished e later
      (agentInvokeSched calls ret e (q.1, q.2.1.withSched sched, q.2.2))).Owned := by
  have inv : Inv none q.base := kept.idle.1
  have own : AgentProgram.Owned (q.1, q.2.1.withSched sched, q.2.2) := kept.owned
  unfold agentInvokeSched
  cases callback : e.callback with
  | timeoutCb =>
    have queued : e.timer ∈ timers q.2.1.sched := by
      rw [runqTake_timers due]
      exact List.mem_cons_self
    obtain ⟨pd, here, -⟩ := (inv.linked e.data).timers e.timer queued (by
      rw [Sched.timer, Sched.call, callback])
    exact agentTimeoutCb_owned own inv.logged here
  | other => exact agentCalls_owned own fresh

theorem AgentConfig.Kept.step {c c' : AgentConfig} {l : AgentLabel} (kept : c.Kept)
    (sane : AgentSane c l) (step : AgentStep c l c') : c'.Kept := by
  refine ⟨(Step.keeps kept.idle sane.base step.base).1, ?_⟩
  cases step with
  | call fresh => exact AgentCall.run_owned kept.owned fresh
  | poll => exact kept.owned
  | turn hx fresh => exact kept.turn hx fresh _ _
  | finish => exact kept.owned
  | expire due fresh => exact kept.expire due fresh _

theorem agentStart_kept (slot : Nat → Slot IoCallback) : (agentStart slot).Kept := by
  refine ⟨start_idle slot, ?_⟩
  constructor
  case invoked => exact fun n invoked => invoked.elim nofun nofun
  case fault => rfl
  all_goals simp [agentStart, start]

/-- What a request held has been released, each thing once, and there is no poll entry and no timer
    of a probe but those of other requests. -/
structure Served.Released (c : AgentConfig) (k : Nat) (r : Served) : Prop where
  userData : c.prog.2.2.released.count (k, .userData) = 1
  probeData : r.record = true → c.prog.2.2.released.count (k, .probeData) = 1
  socket : r.socket = true → c.prog.2.2.released.count (k, .socket) = 1
  entries : ∀ e ∈ c.prog.1.table, e.callback ≠ .other →
    ∃ pd, c.prog.2.1.heap e.data = some pd ∧ some pd.serial ≠ r.serial
  timers : ∀ e ∈ c.prog.2.1.sched.schedq, e.callback ≠ .other →
    ∃ pd, c.prog.2.1.heap e.data = some pd ∧ some pd.serial ≠ r.serial

theorem Inv.probe_entry {q : Program} (inv : Inv none q) {n : Nat}
    (gone : ∀ a pd, q.2.heap a = some pd → pd.serial ≠ n) :
    (∀ e ∈ q.1.table, e.callback ≠ .other →
      ∃ pd, q.2.heap e.data = some pd ∧ some pd.serial ≠ some n) ∧
    ∀ e ∈ q.2.sched.schedq, e.callback ≠ .other →
      ∃ pd, q.2.heap e.data = some pd ∧ some pd.serial ≠ some n := by
  have other {a : Nat} {pd : ProbeData} (here : q.2.heap a = some pd) :
      some pd.serial ≠ some n := fun same => gone a pd here (Option.some.inj same)
  constructor
  · intro e member probe
    obtain ⟨pd, here, -⟩ := inv.linked.entry member probe
    exact ⟨pd, here, other here⟩
  · intro e member probe
    have timer : e.timer.2 = (.timeoutCb, e.data) := by
      rw [Sched.timer, Sched.call]
      cases callback : e.callback with
      | timeoutCb => rfl
      | other => exact absurd callback probe
    obtain ⟨pd, here, -⟩ := (inv.linked e.data).timers _ (List.mem_map_of_mem member) timer
    exact ⟨pd, here, other here⟩

/-- In a run in which the counter of the timer ids does not overflow, a request that has ended has
    released what it held if and only if its probe's time was up; and a probe that has not ended
    still has its timer, if it could set one. -/
theorem probe_released_iff {slot : Nat → Slot IoCallback} {ls : List AgentLabel}
    {c : AgentConfig} (run : Run (Guarded AgentSane AgentStep) (agentStart slot) ls c) :
    (∀ (k : Nat) (r : Served), c.prog.2.2.served[k]? = some r → r.HasEnded c.prog.2.1.log →
      (r.Released c k ↔ r.TimedOut c.prog.2.1.log)) ∧
    ∀ (k : Nat) (r : Served) (n : Nat), c.prog.2.2.served[k]? = some r → r.serial = some n →
      ¬ Invoked n c.prog.2.1.log →
      ∃ a pd, c.prog.2.1.heap a = some pd ∧ pd.serial = n ∧
        (0 ≤ pd.tid → ∃ e ∈ c.prog.2.1.sched.schedq,
          e.id = pd.tid ∧ e.callback = .timeoutCb ∧ e.data = a) := by
  have kept : c.Kept := run.state_invariant (agentStart_kept slot)
    fun _ _ _ kept step => kept.step step.1 step.2
  obtain ⟨⟨inv, -⟩, own⟩ := kept
  refine ⟨fun k r served ended => ⟨fun released => ?_, fun timedOut => ?_⟩,
    fun k r n served serves alive => ?_⟩
  · -- the `probe_user_data` has been released, and only `my_probe_timeout` does that
    have counted := own.count k r served .userData
    rw [released.userData] at counted
    by_contra inTime
    rw [Served.due, if_neg] at counted
    · cases counted
    · rintro ⟨n, serves, timeout⟩
      exact inTime ⟨n, serves, timeout⟩
  · obtain ⟨n, serves, timeout⟩ := timedOut
    have freed := inv.logged.freed n (.inr timeout)
    obtain ⟨entries, timers⟩ := inv.probe_entry (inv.logged.gone n freed).2
    have due (x : Resource) : r.due c.prog.2.1.log x = 1 := by
      cases x <;> simp [Served.due, serves, timeout]
    rw [← serves] at entries timers
    exact ⟨(own.count k r served _).trans (due _), fun _ => (own.count k r served _).trans (due _),
      fun _ => (own.count k r served _).trans (due _), entries, timers⟩
  · obtain ⟨a, pd, here, number⟩ := own.waits k r n served serves alive
    refine ⟨a, pd, here, number, fun timed => ?_⟩
    obtain ⟨e, queued, timer⟩ := List.mem_map.mp ((inv.linked a).tid pd here timed)
    simp only [Sched.timer, Sched.call, Prod.mk.injEq] at timer
    exact ⟨e, queued, timer.1, timer.2.1, timer.2.2⟩

def sshRequest (connect : Bool) : ProbeRequest where
  arguments := { ip := 0x7f000001, port := 22, timeout := 1000, np := [] }
  agent := 0
  userData := 50
  record := some 7
  socket := { socket := some 5, getfl := true, setfl := true, connect }
  timerBlock := some 3
  now := some ⟨0, 0⟩
  outBlock := some 100
  inBlock := some 101

def noSlot : Nat → Slot IoCallback := fun _ => ⟨⟨0, 0, .other, 0, 0, 0⟩, 0⟩

theorem sshRequest_fresh (connect : Bool) :
    (AgentCall.probe (sshRequest connect)).Fresh (agentStart noSlot).prog := by
  refine ⟨⟨fun _ _ => rfl, fun p _ => List.not_mem_nil, fun _ _ => rfl, fun p member => ⟨rfl, ?_⟩⟩,
    fun r _ => ⟨rfl, fun _ _ => rfl⟩⟩
  cases member
  intro member
  cases member

/-- Nothing answers for a second. -/
theorem probe_released_expired :
    ∃ c, Run (Guarded AgentSane AgentStep) (agentStart noSlot)
        [.call (.probe (sshRequest true)), .expire (some ⟨2, 0⟩) [] false none] c ∧
      (⟨some 0, true, true⟩ : Served).Released c 0 := by
  have sane₀ : AgentSane (agentStart noSlot) (.call (.probe (sshRequest true))) := by
    unfold AgentSane
    decide
  have sane₁ : AgentSane ⟨none, (AgentCall.probe (sshRequest true)).run (agentStart noSlot).prog⟩
      (.expire (some ⟨2, 0⟩) [] false none) := by
    unfold AgentSane
    decide
  have first : Run (Guarded AgentSane AgentStep) (agentStart noSlot) _ _ :=
    .single ⟨sane₀, .call (sshRequest_fresh true)⟩
  have run := first.snoc ⟨sane₁, .expire rfl trivial⟩
  have expired : Event.timeout 0 ∈ [.timeout 0, .freed 0 7] := List.mem_cons_self
  refine ⟨_, run, ((probe_released_iff run).1 0 _ rfl ?_).mpr ⟨0, rfl, expired⟩⟩
  rintro n ⟨⟩
  exact .inr expired

/-- The connection is refused: the request has ended, and its `probe_user_data` and its socket are
    still there. -/
theorem probe_unreleased_refused :
    ∃ c, Run AgentStep (agentStart noSlot) [.call (.probe (sshRequest false))] c ∧
      ∃ r, c.prog.2.2.served[0]? = some r ∧ r.HasEnded c.prog.2.1.log ∧ ¬ r.Released c 0 := by
  refine ⟨_, Run.single (.call (sshRequest_fresh false)), ⟨none, true, true⟩, rfl, nofun, ?_⟩
  intro released
  exact absurd released.userData (by decide)

end Cheops.Probes
