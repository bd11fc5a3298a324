import Cheops.Lib.Run
import Cheops.OsScan.Request

/-! # OS scans: the queue of requests (`agent-osscan.c`)

The main thread appends requests to `os_detect_q` under `os_list_mutex`, and posts
`os_detect_go_sem` after it has released the mutex.  The worker thread waits for the semaphore and
takes the first request under the mutex.  A step is one statement of either thread.

`Queueing.Inv` says how the semaphore and the queue belong together: each request in the queue has
its post, one that is still to come or one that has woken the worker.  `requests_served` follows.
-/

namespace Cheops.OsScan

open Cheops.Lib Cheops.Event

/-! ## The two threads -/

/-- The arguments of `enqueue_osscan`.  `memory` is whether `malloc` returns an entry for it. -/
structure EnqueueCall where
  name : Option (List UInt8)
  np : List UInt8
  agent : Nat
  ports : List UInt8
  flags : Nat
  memory : Bool

/-- The request that is made for a call.  Without memory `enqueue_osscan` returns. -/
def EnqueueCall.request (c : EnqueueCall) : Option OsDetectQueue :=
  if c.memory then c.name.bind fun name => enqueueOsscan name c.np c.agent c.ports c.flags
  else none

/-- Where `enqueue_osscan` stands on the main thread. -/
inductive Enqueue where
  | outside
  /-- Before `pthread_mutex_lock`. -/
  | made (q : OsDetectQueue)
  | locked (q : OsDetectQueue)
  /-- Behind `os_detect_q_outstanding++`. -/
  | counted (q : OsDetectQueue)
  | appended
  /-- Before `sem_post`. -/
  | unlocked

/-- Where `dequeue_osscan` stands. -/
inductive Dequeue where
  /-- In `sem_wait`. -/
  | waiting
  | woken
  | locked
  /-- Behind `os_detect_q_outstanding--`. -/
  | counted
  /-- Before `pthread_mutex_unlock`; `gl` is whether there was a first entry. -/
  | leaving (gl : Bool)
  | unlocked (gl : Bool)
  | scanning

/-- The shared variables, the two threads and the worker's `q`.  The counter, an `int`, is never too
    large for one: it would take `2 ^ 31` entries in the queue.  Ghosts are the requests that have
    been `accepted`, those `taken` out of the queue and those `scanned`, in order. -/
structure Queueing where
  osDetectQ : List OsDetectQueue
  osDetectQOutstanding : Int
  osDetectGoSem : Nat
  osListMutex : Bool
  main : Enqueue
  worker : Dequeue
  q : Option OsDetectQueue
  accepted : List OsDetectQueue
  taken : List OsDetectQueue
  scanned : List OsDetectQueue

/-- After `init_osscan`. -/
def Queueing.start : Queueing where
  osDetectQ := []
  osDetectQOutstanding := 0
  osDetectGoSem := 0
  osListMutex := false
  main := .outside
  worker := .waiting
  q := none
  accepted := []
  taken := []
  scanned := []

inductive QueueAction where
  | call (c : EnqueueCall)
  | main
  | worker

inductive QueueStep : Queueing → QueueAction → Queueing → Prop
  | reject {s : Queueing} {c : EnqueueCall} (outside : s.main = .outside)
      (none_made : c.request = none) : QueueStep s (.call c) s
  | accept {s : Queueing} {c : EnqueueCall} {q : OsDetectQueue} (outside : s.main = .outside)
      (made : c.request = some q) :
      QueueStep s (.call c) { s with main := .made q, accepted := s.accepted ++ [q] }
  | lock {s : Queueing} {q : OsDetectQueue} (made : s.main = .made q)
      (free : s.osListMutex = false) :
      QueueStep s .main { s with osListMutex := true, main := .locked q }
  | count {s : Queueing} {q : OsDetectQueue} (locked : s.main = .locked q) :
      QueueStep s .main
        { s with osDetectQOutstanding := s.osDetectQOutstanding + 1, main := .counted q }
  | append {s : Queueing} {q : OsDetectQueue} (counted : s.main = .counted q) :
      QueueStep s .main { s with osDetectQ := s.osDetectQ ++ [q], main := .appended }
  | unlock {s : Queueing} (appended : s.main = .appended) :
      QueueStep s .main { s with osListMutex := false, main := .unlocked }
  | post {s : Queueing} (unlocked : s.main = .unlocked) :
      QueueStep s .main { s with osDetectGoSem := s.osDetectGoSem + 1, main := .outside }
  | wait {s : Queueing} {n : Nat} (waiting : s.worker = .waiting)
      (posted : s.osDetectGoSem = n + 1) :
      QueueStep s .worker { s with osDetectGoSem := n, worker := .woken }
  | workerLock {s : Queueing} (woken : s.worker = .woken) (free : s.osListMutex = false) :
      QueueStep s .worker { s with osListMutex := true, worker := .locked }
  | first {s : Queueing} {q : OsDetectQueue} {rest : List OsDetectQueue}
      (locked : s.worker = .locked) (queued : s.osDetectQ = q :: rest) :
      QueueStep s .worker
        { s with
          osDetectQOutstanding := s.osDetectQOutstanding - 1
          q := some q
          worker := .counted }
  | nothing {s : Queueing} (locked : s.worker = .locked) (empty : s.osDetectQ = []) :
      QueueStep s .worker { s with worker := .leaving false }
  | remove {s : Queueing} {q : OsDetectQueue} (counted : s.worker = .counted)
      (first : s.q = some q) :
      QueueStep s .worker
        { s with
          osDetectQ := s.osDetectQ.erase q
          taken := s.taken ++ [q]
          worker := .leaving true }
  | workerUnlock {s : Queueing} {gl : Bool} (leaving : s.worker = .leaving gl) :
      QueueStep s .worker { s with osListMutex := false, worker := .unlocked gl }
  | skip {s : Queueing} {gl : Bool} (unlocked : s.worker = .unlocked gl)
      (null : gl = false ∨ s.q = none) : QueueStep s .worker { s with worker := .waiting }
  | scan {s : Queueing} {q : OsDetectQueue} (unlocked : s.worker = .unlocked true)
      (taken : s.q = some q) :
      QueueStep s .worker { s with scanned := s.scanned ++ [q], worker := .scanning }
  | scanned {s : Queueing} (scanning : s.worker = .scanning) :
      QueueStep s .worker { s with worker := .waiting }

/-! ## What is under way -/

def Enqueue.entering : Enqueue → List OsDetectQueue
  | made q | locked q | counted q => [q]
  | _ => []

def Enqueue.owed : Enqueue → Nat
  | appended | unlocked => 1
  | _ => 0

def Enqueue.ahead : Enqueue → Int
  | counted _ => 1
  | _ => 0

def Enqueue.holds : Enqueue → Bool
  | locked _ | counted _ | appended => true
  | _ => false

def Dequeue.due : Dequeue → Nat
  | woken | locked | counted => 1
  | _ => 0

def Dequeue.behind : Dequeue → Int
  | counted => 1
  | _ => 0

def Dequeue.holds : Dequeue → Bool
  | locked | counted | leaving _ => true
  | _ => false

/-- What the worker's `q` is. -/
def Queueing.Found (s : Queueing) : Prop :=
  match s.worker with
  | .counted => (∃ q rest, s.osDetectQ = q :: rest ∧ s.q = some q) ∧ s.scanned = s.taken
  | .leaving gl | .unlocked gl => gl = true ∧ ∃ q, s.q = some q ∧ s.taken = s.scanned ++ [q]
  | _ => s.scanned = s.taken

structure Queueing.Inv (s : Queueing) : Prop where
  order : s.accepted = s.taken ++ s.osDetectQ ++ s.main.entering
  posts : s.osDetectQ.length = s.osDetectGoSem + s.main.owed + s.worker.due
  outstanding : s.osDetectQOutstanding = s.osDetectQ.length + s.main.ahead - s.worker.behind
  mutex : s.osListMutex = (s.main.holds || s.worker.holds)
  exclusive : s.main.holds = true → s.worker.holds = false
  found : s.Found

section Steps

variable {s s' : Queueing}

theorem start_queueing_inv : Queueing.start.Inv :=
  ⟨rfl, rfl, rfl, rfl, (fun none => by cases none), rfl⟩

/-- A step of the main thread leaves what the worker has found. -/
theorem Queueing.Found.append {xs : List OsDetectQueue} (found : s.Found)
    (worker : s'.worker = s.worker) (queue : s'.osDetectQ = s.osDetectQ ++ xs)
    (q : s'.q = s.q) (taken : s'.taken = s.taken) (scanned : s'.scanned = s.scanned) :
    s'.Found := by
  unfold Queueing.Found at found ⊢
  rw [worker, q, taken, scanned, queue]
  cases at_ : s.worker with
  | counted =>
    simp only [at_] at found ⊢
    obtain ⟨⟨q, rest, first, same⟩, done⟩ := found
    exact ⟨⟨q, rest ++ xs, by rw [first]; rfl, same⟩, done⟩
  | _ =>
    simp only [at_] at found ⊢
    exact found

theorem Queueing.Inv.step {l : QueueAction} (inv : s.Inv) (step : QueueStep s l s') :
    s'.Inv := by
  obtain ⟨order, posts, outstanding, mutex, exclusive, found⟩ := inv
  have nothing : s.osDetectQ = s.osDetectQ ++ [] := (List.append_nil _).symm
  cases step with
  | reject => exact ⟨order, posts, outstanding, mutex, exclusive, found⟩
  | accept outside =>
    simp only [outside] at order posts outstanding mutex exclusive
    refine ⟨?_, posts, outstanding, mutex, exclusive, found.append rfl nothing rfl rfl rfl⟩
    simp only [order, Enqueue.entering, List.append_nil]
  | lock made free =>
    simp only [made] at order posts outstanding mutex exclusive
    have away : s.worker.holds = false := (Bool.or_eq_false_iff.mp (mutex.symm.trans free)).2
    exact ⟨order, posts, outstanding, rfl, fun _ => away, found.append rfl nothing rfl rfl rfl⟩
  | count locked =>
    simp only [locked] at order posts outstanding mutex exclusive
    refine ⟨order, posts, ?_, mutex, exclusive, found.append rfl nothing rfl rfl rfl⟩
    simp only [outstanding, Enqueue.ahead]
    omega
  | append counted =>
    simp only [counted] at order posts outstanding mutex exclusive
    refine ⟨?_, ?_, ?_, mutex, exclusive, found.append rfl rfl rfl rfl rfl⟩
    · simp only [order, Enqueue.entering, List.append_assoc, List.append_nil]
    · simp only [List.length_append, List.length_singleton, posts, Enqueue.owed]
      omega
    · simp only [outstanding, List.length_append, List.length_singleton, Enqueue.ahead]
      omega
  | unlock appended =>
    simp only [appended] at order posts outstanding mutex exclusive
    have away := exclusive rfl
    refine ⟨order, posts, outstanding, ?_, (fun none => by cases none),
      found.append rfl nothing rfl rfl rfl⟩
    simp only [away, Enqueue.holds, Bool.or_self]
  | post unlocked =>
    simp only [unlocked] at order posts outstanding mutex exclusive
    refine ⟨order, ?_, outstanding, mutex, exclusive, found.append rfl nothing rfl rfl rfl⟩
    simp only [posts, Enqueue.owed, Nat.add_zero]
  | wait waiting posted =>
    simp only [waiting, posted, Queueing.Found] at order posts outstanding mutex exclusive found
    refine ⟨order, ?_, outstanding, mutex, exclusive, found⟩
    simp only [posts, Dequeue.due]
    omega
  | workerLock woken free =>
    simp only [woken, Queueing.Found] at order posts outstanding mutex exclusive found
    have away : s.main.holds = false := (Bool.or_eq_false_iff.mp (mutex.symm.trans free)).1
    refine ⟨order, posts, outstanding, ?_, (fun held => ?_), found⟩
    · simp only [Dequeue.holds, Bool.or_true]
    · rw [away] at held
      cases held
  | first locked queued =>
    simp only [locked, Queueing.Found] at order posts outstanding mutex exclusive found
    refine ⟨order, posts, ?_, mutex, exclusive, ⟨_, _, queued, rfl⟩, found⟩
    simp only [outstanding, Dequeue.behind]
    omega
  | nothing locked empty =>
    simp only [locked, empty, List.length_nil, Dequeue.due] at posts
    omega
  | remove counted first =>
    simp only [counted, Queueing.Found] at order posts outstanding mutex exclusive found
    obtain ⟨⟨q, rest, queued, same⟩, done⟩ := found
    cases first.symm.trans same
    simp only [queued, List.length_cons, Dequeue.due, Dequeue.behind] at posts outstanding
    refine ⟨?_, ?_, ?_, mutex, exclusive, rfl, _, first, by rw [done]⟩
    · simp [order, queued]
    · simp only [queued, List.erase_cons_head, Dequeue.due]
      omega
    · simp only [queued, List.erase_cons_head, outstanding, Dequeue.behind]
      omega
  | workerUnlock leaving =>
    simp only [leaving, Queueing.Found] at order posts outstanding mutex exclusive found
    have away : s.main.holds = false := by
      by_contra held
      exact absurd (exclusive (by simpa using held)) Bool.noConfusion
    refine ⟨order, posts, outstanding, ?_, fun _ => rfl, found⟩
    simp only [away, Dequeue.holds, Bool.or_self]
  | skip unlocked null =>
    simp only [unlocked, Queueing.Found] at found
    obtain ⟨gl, q, same, -⟩ := found
    simp [gl, same] at null
  | scan unlocked taken =>
    simp only [unlocked, Queueing.Found] at order posts outstanding mutex exclusive found
    obtain ⟨-, q, same, all⟩ := found
    -- `q` is the last request that has been taken, and the only one that is not scanned
    cases taken.symm.trans same
    exact ⟨order, posts, outstanding, mutex, exclusive, all.symm⟩
  | scanned scanning =>
    simp only [scanning, Queueing.Found] at order posts outstanding mutex exclusive found
    exact ⟨order, posts, outstanding, mutex, exclusive, found⟩

/-! ## What is left to do -/

/-- The steps of the main thread that are left, and those that its post gives to the worker. -/
def Enqueue.work : Enqueue → Nat
  | outside => 0
  | made _ => 12
  | locked _ => 11
  | counted _ => 10
  | appended => 9
  | unlocked => 8

/-- The steps that the worker has left before it waits again. -/
def Dequeue.work : Dequeue → Nat
  | waiting => 0
  | woken => 6
  | locked => 5
  | counted => 4
  | leaving _ => 3
  | unlocked _ => 2
  | scanning => 1

def Queueing.work (s : Queueing) : Nat := s.main.work + 7 * s.osDetectGoSem + s.worker.work

def QueueAction.isCall : QueueAction → Bool
  | call _ => true
  | _ => false

abbrev ThreadStep : Queueing → QueueAction → Queueing → Prop :=
  Guarded (fun _ l => l.isCall = false) QueueStep

theorem ThreadStep.work {l : QueueAction} (step : ThreadStep s l s') :
    s'.work + 1 ≤ s.work ∧ s'.accepted = s.accepted := by
  obtain ⟨thread, step⟩ := step
  cases step with
  | reject | accept => cases thread
  | lock at_ | count at_ | append at_ | unlock at_ | post at_ | workerLock at_ | first at_
  | nothing at_ | remove at_ | workerUnlock at_ | scanned at_ | skip at_ | scan at_ =>
    refine ⟨?_, rfl⟩
    simp only [Queueing.work, at_, Enqueue.work, Dequeue.work]
    omega
  -- a post weighs as much as the steps to which it wakes the worker
  | wait at_ posted =>
    refine ⟨?_, rfl⟩
    simp only [Queueing.work, at_, posted, Dequeue.work]
    omega

/-- No more than that many steps can follow without a call. -/
theorem threads_work {ms : List QueueAction} (run : Run ThreadStep s ms s') :
    ms.length + s'.work ≤ s.work ∧ s'.accepted = s.accepted := by
  induction run with
  | refl => exact ⟨by simp, rfl⟩
  | snoc _ step ih =>
    obtain ⟨smaller, same⟩ := step.work
    refine ⟨?_, same.trans ih.2⟩
    rw [List.length_append, List.length_singleton]
    omega

/-- While the main thread does not hold the mutex, the worker goes on until there is no post. -/
theorem Queueing.Inv.waits (inv : s.Inv) (away : s.main.holds = false)
    (stuck : ∀ s', ¬ QueueStep s .worker s') : s.worker = .waiting ∧ s.osDetectGoSem = 0 := by
  obtain ⟨-, -, -, mutex, -, found⟩ := inv
  unfold Queueing.Found at found
  cases worker : s.worker with
  | waiting =>
    cases sem : s.osDetectGoSem with
    | zero => exact ⟨rfl, rfl⟩
    | succ n => exact absurd (.wait worker sem) (stuck _)
  | woken =>
    rw [away, worker] at mutex
    exact absurd (.workerLock worker mutex) (stuck _)
  | locked =>
    cases queue : s.osDetectQ with
    | nil => exact absurd (.nothing worker queue) (stuck _)
    | cons => exact absurd (.first worker queue) (stuck _)
  | counted =>
    rw [worker] at found
    obtain ⟨⟨_, _, -, same⟩, -⟩ := found
    exact absurd (.remove worker same) (stuck _)
  | leaving => exact absurd (.workerUnlock worker) (stuck _)
  | unlocked =>
    rw [worker] at found
    obtain ⟨rfl, _, same, -⟩ := found
    exact absurd (.scan worker same) (stuck _)
  | scanning => exact absurd (.scanned worker) (stuck _)

/-- Where neither thread can go on, all requests have been scanned. -/
theorem Queueing.Inv.idle (inv : s.Inv) (stuck : ∀ l s', ¬ ThreadStep s l s') :
    s.taken = s.accepted ∧ s.scanned = s.accepted := by
  have main_stuck (s' : Queueing) : ¬ QueueStep s .main s' :=
    fun step => stuck .main s' ⟨rfl, step⟩
  have worker_stuck (s' : Queueing) : ¬ QueueStep s .worker s' :=
    fun step => stuck .worker s' ⟨rfl, step⟩
  cases main : s.main with
  | made =>
    obtain ⟨worker, -⟩ := inv.waits (by rw [main]; rfl) worker_stuck
    have mutex := inv.mutex
    rw [main, worker] at mutex
    exact absurd (.lock main mutex) (main_stuck _)
  | locked => exact absurd (.count main) (main_stuck _)
  | counted => exact absurd (.append main) (main_stuck _)
  | appended => exact absurd (.unlock main) (main_stuck _)
  | unlocked => exact absurd (.post main) (main_stuck _)
  | outside =>
    obtain ⟨worker, sem⟩ := inv.waits (by rw [main]; rfl) worker_stuck
    obtain ⟨order, posts, -, -, -, found⟩ := inv
    -- no post is left, and so no request is in the queue
    rw [main, worker, sem] at posts
    have empty : s.osDetectQ = [] := List.eq_nil_of_length_eq_zero posts
    simp only [main, empty, Enqueue.entering, List.append_nil] at order
    simp only [Queueing.Found, worker] at found
    exact ⟨order.symm, found.trans order.symm⟩

end Steps

/-! ## Requests are served once -/

/-- What is promised of a state: the requests are taken in the order of their acceptance, each
    once, and scanned once; when no call is made any more, the threads come to an end, and then all
    have been. -/
structure Served (s : Queueing) : Prop where
  order : ∃ rest, s.accepted = s.taken ++ rest
  scans : ∃ rest, s.taken = s.scanned ++ rest
  found : s.worker = .locked → s.osDetectQ ≠ []
  outstanding : s.osListMutex = false → s.osDetectQOutstanding = s.osDetectQ.length
  posted : s.osListMutex = false → s.osDetectGoSem ≤ s.osDetectQ.length
  ends : ∀ ms s', Run ThreadStep s ms s' → ms.length ≤ s.work ∧
    ((∀ l s'', ¬ ThreadStep s' l s'') → s'.taken = s.accepted ∧ s'.scanned = s.accepted)

section Requests

variable {s : Queueing}

/-- Where the mutex is free, neither thread is between the counter and the list. -/
theorem Queueing.Inv.counted (inv : s.Inv) (free : s.osListMutex = false) :
    s.osDetectQOutstanding = s.osDetectQ.length := by
  obtain ⟨main, worker⟩ := Bool.or_eq_false_iff.mp (inv.mutex.symm.trans free)
  have ahead : s.main.ahead = 0 := by
    cases at_ : s.main with
    | counted => rw [at_] at main; cases main
    | _ => rfl
  have behind : s.worker.behind = 0 := by
    cases at_ : s.worker with
    | counted => rw [at_] at worker; cases worker
    | _ => rfl
  rw [inv.outstanding, ahead, behind]
  omega

theorem requests_served {ls : List QueueAction} (run : Run QueueStep Queueing.start ls s) :
    Served s := by
  have kept {ls : List QueueAction} {s : Queueing} (run : Run QueueStep Queueing.start ls s) :
      s.Inv := run.state_invariant start_queueing_inv fun _ _ _ inv step => inv.step step
  have inv := kept run
  constructor
  case order => exact ⟨s.osDetectQ ++ s.main.entering, by rw [inv.order, List.append_assoc]⟩
  case scans =>
    have found := inv.found
    unfold Queueing.Found at found
    split at found
    next => exact ⟨[], by rw [found.2, List.append_nil]⟩
    next =>
      obtain ⟨-, q, -, last⟩ := found
      exact ⟨[q], last⟩
    next =>
      obtain ⟨-, q, -, last⟩ := found
      exact ⟨[q], last⟩
    next => exact ⟨[], by rw [found, List.append_nil]⟩
  case found =>
    intro locked empty
    have posts := inv.posts
    rw [locked, empty, List.length_nil, Dequeue.due] at posts
    omega
  case outstanding => exact inv.counted
  case posted =>
    intro _
    rw [inv.posts]
    omega
  case ends =>
    intro ms s' later
    obtain ⟨bound, same⟩ := threads_work later
    refine ⟨by omega, fun stuck => ?_⟩
    have inv' := kept (run.trans later.of_guarded)
    rw [← same]
    exact inv'.idle stuck

end Requests

def scanCall (ports : List UInt8) : EnqueueCall where
  name := some (text "10.0.0.1")
  np := [1, 0, 0, 0, 0, 0, 0, 0]
  agent := 1
  ports
  flags := 0
  memory := true

/-- The second request is made while the worker takes the first. -/
theorem requests_served_two :
    ∃ ls s, Run QueueStep Queueing.start ls s ∧ s.scanned.map (·.ports) = [text "80", text "22"] ∧
      Served s := by
  have accepted : Run QueueStep Queueing.start [.call (scanCall (text "80"))] _ :=
    .single (.accept rfl rfl)
  have queued := ((((accepted.snoc (.lock rfl rfl)).snoc (.count rfl)).snoc (.append rfl)).snoc
    (.unlock rfl)).snoc (.post rfl)
  have woken := (queued.snoc (.wait rfl rfl)).snoc (l := .call (scanCall (text "22")))
    (.accept rfl rfl)
  have taken := (((woken.snoc (.workerLock rfl rfl)).snoc (.first rfl rfl)).snoc
    (.remove rfl rfl)).snoc (.workerUnlock rfl)
  have together := (((taken.snoc (.lock rfl rfl)).snoc (.scan rfl rfl)).snoc (.count rfl)).snoc
    (.scanned rfl)
  have posted := ((together.snoc (.append rfl)).snoc (.unlock rfl)).snoc (.post rfl)
  have later := (((posted.snoc (.wait rfl rfl)).snoc (.workerLock rfl rfl)).snoc
    (.first rfl rfl)).snoc (.remove rfl rfl)
  have scanned := (later.snoc (.workerUnlock rfl)).snoc (.scan rfl rfl)
  exact ⟨_, _, scanned, rfl, requests_served scanned⟩

end Cheops.OsScan
