import Cheops.Gui.Discovery
import Cheops.Lib.Decimal

/-! # What becomes of a discover request

A `discover_dns` is in one place at a time: a query, a call that runs the main loop, or the callback
that runs now.  So it is freed once at most, and the request is sent once at most.  After an invalid
netmask it is in no place any more.

What is sent is what has been asked for, but for the ranges: two addresses are put in the order of
their bytes from the last to the first, and a range with a name that could not be found becomes a
single host when the user lets the program try again.
-/

namespace Cheops.Gui.Discovery

open Cheops.Lib Cheops.Fields
open Cheops.OsScan (ip2strOn)

variable {o : ByteOrder} {s s' : Discoveries} {ls : List Action} {dd : DiscoverDns}
  {hand : List Nat} {data : Nat} {n : List UInt8} {v : Nat}

/-! ## What is asked for and what is sent -/

def Action.asks : Action → Option (Request × Nat × Nat)
  | .discover agent np _ host =>
    match strchr host 47 with
    | some c => some (.network (host.take c) (host.drop (c + 1)), agent, np)
    | none => some (.host host, agent, np)
  | .discoverRange agent np _ first last => some (.range first last, agent, np)
  | _ => none

def Answered (o : ByteOrder) (ls : List Action) (n : List UInt8) (v : Nat) : Prop :=
  ∃ q inaddr, Action.answer q (some inaddr) ∈ ls ∧ q.hostname = n ∧ o.ntoh 4 inaddr = v

def Unanswered (ls : List Action) (n : List UInt8) : Prop :=
  ∃ q, Action.answer q none ∈ ls ∧ q.hostname = n

def Failed (ls : List Action) (n : List UInt8) : Prop := inetAton n = none ∧ Unanswered ls n

def Resolves (o : ByteOrder) (ls : List Action) (n : List UInt8) (v : Nat) : Prop :=
  inetAton n = some v ∨ inetAton n = none ∧ Answered o ls n v

def inOrder (o : ByteOrder) (a b : Nat) : Nat × Nat :=
  if o.ntoh 4 a > o.ntoh 4 b then (b, a) else (a, b)

/-- The range that is sent is the one that has been asked for. -/
inductive Right (o : ByteOrder) (ls : List Action) (dd : DiscoverDns) : Prop
  | host {n : List UInt8} {v : Nat} (request : dd.request = .host n) (resolves : Resolves o ls n v)
      (range : (dd.startIp, dd.endIp) = (v, v))
  | network {n m : List UInt8} {v mask : Nat} (request : dd.request = .network n m)
      (resolves : Resolves o ls n v) (read : readMask o m = some mask)
      (range : (dd.startIp, dd.endIp) = blockOf v mask)
  | range {f l : List UInt8} {a b : Nat} (request : dd.request = .range f l)
      (first : Resolves o ls f a) (last : Resolves o ls l b)
      (range : (dd.startIp, dd.endIp) = inOrder o a b)
  /-- A lookup has failed, and the user has let the program try again. -/
  | single {f l : List UInt8} {a : Nat} (request : dd.request = .range f l)
      (first : Answered o ls f a) (failed : Failed ls f ∨ Failed ls l)
      (range : (dd.startIp, dd.endIp) = (a, a))

inductive Awaits (o : ByteOrder) (ls : List Action) (dd : DiscoverDns) : AnswerCb → Prop
  | host {n : List UInt8} (request : dd.request = .host n) (start : dd.start = some n)
      (name : inetAton n = none) (flag : dd.network = false) :
      Awaits o ls dd .doHostDiscoverAfterDns
  | network {n m : List UInt8} (request : dd.request = .network n m) (start : dd.start = some n)
      (end_ : dd.end_ = some m) (name : inetAton n = none) (flag : dd.network = true) :
      Awaits o ls dd .doNetworkDiscoverAfterDns
  | first {f l : List UInt8} (request : dd.request = .range f l) (start : dd.start = some f)
      (end_ : dd.end_ = some l) (name : inetAton f = none) (flag : dd.network = false) :
      Awaits o ls dd .doDiscoverRangeAfterFirstDns
  | last {f l : List UInt8} {a : Nat} (request : dd.request = .range f l)
      (start : dd.start = some f) (end_ : dd.end_ = some l) (name : inetAton l = none)
      (first : Resolves o ls f a)
      (startIp : dd.startIp = a) (flag : dd.network = false) :
      Awaits o ls dd .doDiscoverRangeAfterLastDns
  | single {f l : List UInt8} (request : dd.request = .range f l) (start : dd.start = some f)
      (failed : Failed ls f ∨ Failed ls l) (flag : dd.network = false) :
      Awaits o ls dd .doHostDiscoverAfterDns

/-! ## The invariant -/

def Discoveries.held (s : Discoveries) : List Nat :=
  s.queries.map DnsQuery.data ++ s.stack.map Activation.data

def Activation.callback (dd : DiscoverDns) : Activation → AnswerCb
  | .lookup answerCb _ => answerCb
  | .timeout _ => dd.retry

def DiscoverDns.cached (o : ByteOrder) (dd : DiscoverDns) : Option (Nat × List UInt8) :=
  dd.start.map fun name => (o.ntoh 4 dd.startIp, name)

/-- `hand` is what a callback that runs now points to.  A name has at most 186 bytes. -/
structure Inv (o : ByteOrder) (ls : List Action) (hand : List Nat) (s : Discoveries) : Prop where
  fault : s.fault = false
  nodup : (hand ++ s.held ++ s.lost).Nodup
  alive : ∀ data, data ∈ hand ++ s.held ++ s.lost ↔ ∃ dd, s.records data = some dd
  short : ∀ data dd, s.records data = some dd → ∀ n ∈ dd.start, n.length ≤ 186
  serial : ∀ data dd, s.records data = some dd → dd.serial < s.started
  apart : ∀ data dd data' dd', s.records data = some dd → s.records data' = some dd' →
    dd.serial = dd'.serial → data = data'
  queries : ∀ q ∈ s.queries, ∃ dd, s.records q.data = some dd ∧ Awaits o ls dd q.answerCb ∧
    dd.name q.answerCb = some q.hostname
  stack : ∀ a ∈ s.stack, ∃ dd, s.records a.data = some dd ∧ Awaits o ls dd (a.callback dd)
  lost : ∀ data ∈ s.lost, ∃ dd n m, s.records data = some dd ∧ dd.request = .network n m ∧
    readMask o m = none
  asked : ∀ data dd, s.records data = some dd →
    ∃ action ∈ ls, action.asks = some (dd.request, dd.agent, dd.np)
  sent : ∀ dd ∈ s.sent, Right o ls dd ∧ dd.serial < s.started ∧
    ∃ action ∈ ls, action.asks = some (dd.request, dd.agent, dd.np)
  /-- No request is sent twice. -/
  once : (s.sent.map DiscoverDns.serial).Nodup
  unsent : ∀ data dd, s.records data = some dd → dd.serial ∉ s.sent.map DiscoverDns.serial
  names : (s.ipCache ++ s.given).Perm (s.sent.filterMap (DiscoverDns.cached o))

/-! ### A longer history -/

section Mono

variable {ls' : List Action} {cb : AnswerCb} (sub : ls ⊆ ls')

include sub

theorem Answered.mono (answered : Answered o ls n v) : Answered o ls' n v := by
  obtain ⟨q, inaddr, member, name⟩ := answered
  exact ⟨q, inaddr, sub member, name⟩

theorem Failed.mono (failed : Failed ls n) : Failed ls' n := by
  obtain ⟨aton, q, member, name⟩ := failed
  exact ⟨aton, q, sub member, name⟩

theorem Resolves.mono (resolves : Resolves o ls n v) : Resolves o ls' n v :=
  resolves.imp_right fun ⟨name, answered⟩ => ⟨name, answered.mono sub⟩

theorem Right.mono (right : Right o ls dd) : Right o ls' dd := by
  cases right with
  | host request resolves range => exact .host request (resolves.mono sub) range
  | network request resolves read range => exact .network request (resolves.mono sub) read range
  | range request first last range => exact .range request (first.mono sub) (last.mono sub) range
  | single request first failed range =>
    exact .single request (first.mono sub) (failed.imp (·.mono sub) (·.mono sub)) range

theorem Awaits.mono (awaits : Awaits o ls dd cb) : Awaits o ls' dd cb := by
  cases awaits with
  | host request start name flag => exact .host request start name flag
  | network request start end_ name flag => exact .network request start end_ name flag
  | first request start end_ name flag => exact .first request start end_ name flag
  | last request start end_ name first startIp flag =>
    exact .last request start end_ name (first.mono sub) startIp flag
  | single request start failed flag =>
    exact .single request start (failed.imp (·.mono sub) (·.mono sub)) flag

theorem Inv.mono (inv : Inv o ls hand s) : Inv o ls' hand s :=
  { inv with
    queries := fun q member => by
      obtain ⟨dd, record, awaits, name⟩ := inv.queries q member
      exact ⟨dd, record, awaits.mono sub, name⟩
    stack := fun a member => by
      obtain ⟨dd, record, awaits⟩ := inv.stack a member
      exact ⟨dd, record, awaits.mono sub⟩
    asked := fun data dd record => by
      obtain ⟨action, member, asks⟩ := inv.asked data dd record
      exact ⟨action, sub member, asks⟩
    sent := fun dd member => by
      obtain ⟨right, serial, action, member, asks⟩ := inv.sent dd member
      exact ⟨right.mono sub, serial, action, sub member, asks⟩ }

end Mono

/-! ### From place to place -/

/-- The `discover_dns` that are allocated, by what points to them. -/
def Discoveries.places (hand : List Nat) (s : Discoveries) : List Nat := hand ++ s.held ++ s.lost

/-- A `discover_dns` comes to another place. -/
theorem Inv.move (inv : Inv o ls hand s) {hand' lost : List Nat} {queries : List DnsQuery}
    {stack : List Activation}
    (perm : (Discoveries.places hand' { s with queries, stack, lost }).Perm (s.places hand))
    (asking : ∀ q ∈ queries, ∃ dd, s.records q.data = some dd ∧ Awaits o ls dd q.answerCb ∧
      dd.name q.answerCb = some q.hostname)
    (calling : ∀ a ∈ stack, ∃ dd, s.records a.data = some dd ∧ Awaits o ls dd (a.callback dd))
    (leaked : ∀ data ∈ lost, ∃ dd n m, s.records data = some dd ∧ dd.request = .network n m ∧
      readMask o m = none) :
    Inv o ls hand' { s with queries, stack, lost } :=
  { inv with
    nodup := perm.nodup_iff.mpr inv.nodup
    alive := fun data => perm.mem_iff.trans (inv.alive data)
    queries := asking
    stack := calling
    lost := leaked }

/-- The place that a `discover_dns` has come from is put in front. -/
theorem places_cons (data : Nat) (hand as bs lost : List Nat) :
    (hand ++ (as ++ data :: bs) ++ lost).Perm (data :: hand ++ (as ++ bs) ++ lost) := by
  have middle : (hand ++ as ++ data :: (bs ++ lost)).Perm (data :: (hand ++ as ++ (bs ++ lost))) :=
    List.perm_middle
  simpa only [List.append_assoc, List.cons_append] using middle

theorem Inv.ask (inv : Inv o ls (data :: hand) s) (record : s.records data = some dd)
    {cb : AnswerCb} (awaits : Awaits o ls dd cb) (name : dd.name cb = some n) :
    Inv o ls hand { s with queries := ⟨n, cb, data⟩ :: s.queries } := by
  refine inv.move (places_cons data hand [] _ _) ?_ inv.stack inv.lost
  rintro q (- | ⟨_, member⟩)
  · exact ⟨dd, record, awaits, name⟩
  · exact inv.queries q member

theorem Inv.call (inv : Inv o ls (data :: hand) s) (record : s.records data = some dd)
    {a : Activation} (same : a.data = data) (awaits : Awaits o ls dd (a.callback dd)) :
    Inv o ls hand { s with stack := a :: s.stack } := by
  subst same
  refine inv.move (places_cons a.data hand _ _ _) inv.queries ?_ inv.lost
  rintro b (- | ⟨_, member⟩)
  · exact ⟨dd, record, awaits⟩
  · exact inv.stack b member

theorem Inv.lose (inv : Inv o ls (data :: hand) s) (record : s.records data = some dd)
    {n m : List UInt8} (request : dd.request = .network n m) (invalid : readMask o m = none) :
    Inv o ls hand { s with lost := data :: s.lost } := by
  refine inv.move ?_ inv.queries inv.stack ?_
  · exact List.perm_middle
  · rintro x (- | ⟨_, member⟩)
    · exact ⟨dd, n, m, record, request, invalid⟩
    · exact inv.lost x member

theorem Inv.answered (inv : Inv o ls hand s) {q : DnsQuery} (member : q ∈ s.queries) :
    Inv o ls (q.data :: hand) { s with queries := s.queries.erase q } := by
  refine inv.move ?_ (fun x member => inv.queries x (List.mem_of_mem_erase member)) inv.stack
    inv.lost
  have taken := (List.perm_cons_erase member).map DnsQuery.data
  exact ((places_cons q.data hand [] _ _).symm.trans
    (((taken.symm.append_right _).append_left _).append_right _))

theorem Inv.returned (inv : Inv o ls hand s) {a : Activation} {stack : List Activation}
    (top : s.stack = a :: stack) : Inv o ls (a.data :: hand) { s with stack } := by
  refine inv.move ?_ inv.queries (fun x member => inv.stack x (top ▸ .tail _ member)) inv.lost
  have inside := (places_cons a.data hand (s.queries.map DnsQuery.data)
    (stack.map Activation.data) s.lost).symm
  rwa [← List.map_cons, ← top] at inside

/-! ### Allocation -/

/-- The records of the places that are left are the same. -/
theorem Inv.other (inv : Inv o ls (data :: hand) s) {x : Nat} (place : x ∈ s.places hand)
    {f : Option DiscoverDns} : Function.update s.records data f x = s.records x := by
  refine Function.update_of_ne ?_ _ _
  rintro rfl
  exact (List.nodup_cons.mp inv.nodup).1 place

theorem mem_places_query {q : DnsQuery} (member : q ∈ s.queries) : q.data ∈ s.places hand :=
  List.mem_append_left _ (List.mem_append_right _
    (List.mem_append_left _ (List.mem_map_of_mem member)))

theorem mem_places_call {a : Activation} (member : a ∈ s.stack) : a.data ∈ s.places hand :=
  List.mem_append_left _ (List.mem_append_right _
    (List.mem_append_right _ (List.mem_map_of_mem member)))

theorem mem_places_lost {x : Nat} (member : x ∈ s.lost) : x ∈ s.places hand :=
  List.mem_append_right _ member

theorem Inv.free (inv : Inv o ls (data :: hand) s) : Inv o ls hand (s.free data) := by
  obtain ⟨gone, nodup⟩ := List.nodup_cons.mp inv.nodup
  have old {x : Nat} {dd : DiscoverDns} (record : (s.free data).records x = some dd) :
      s.records x = some dd := by
    by_cases here : x = data
    case pos =>
      rw [here] at record
      exact absurd ((Function.update_self ..).symm.trans record) nofun
    case neg => exact (Function.update_of_ne here _ _).symm.trans record
  refine
    { inv with
      nodup := nodup
      alive := fun x => ⟨fun place => ?_, fun ⟨dd, record⟩ => ?_⟩
      short := fun x dd record => inv.short x dd (old record)
      serial := fun x dd record => inv.serial x dd (old record)
      apart := fun x dd y dd' first second => inv.apart x dd y dd' (old first) (old second)
      queries := fun q member => ?_
      stack := fun a member => ?_
      lost := fun x member => ?_
      asked := fun x dd record => inv.asked x dd (old record)
      unsent := fun x dd record => inv.unsent x dd (old record) }
  · obtain ⟨dd, record⟩ := (inv.alive x).mp (.tail _ place)
    exact ⟨dd, (inv.other place).trans record⟩
  · rcases List.mem_cons.mp ((inv.alive x).mpr ⟨dd, old record⟩) with rfl | place
    · exact absurd ((Function.update_self ..).symm.trans record) nofun
    · exact place
  · obtain ⟨dd, record, rest⟩ := inv.queries q member
    exact ⟨dd, (inv.other (mem_places_query member)).trans record, rest⟩
  · obtain ⟨dd, record, rest⟩ := inv.stack a member
    exact ⟨dd, (inv.other (mem_places_call member)).trans record, rest⟩
  · obtain ⟨dd, n, m, record, rest⟩ := inv.lost x member
    exact ⟨dd, n, m, (inv.other (mem_places_lost member)).trans record, rest⟩

structure DiscoverDns.Same (dd dd' : DiscoverDns) : Prop where
  start : dd'.start = dd.start
  serial : dd'.serial = dd.serial
  request : dd'.request = dd.request
  agent : dd'.agent = dd.agent
  np : dd'.np = dd.np

/-- The callback writes to its record. -/
theorem Inv.set (inv : Inv o ls (data :: hand) s) (record : s.records data = some dd)
    {dd' : DiscoverDns} (same : dd.Same dd') :
    Inv o ls (data :: hand) { s with records := Function.update s.records data (some dd') } := by
  have new : Function.update s.records data (some dd') data = some dd' := Function.update_self ..
  have old {x : Nat} {d : DiscoverDns}
      (written : Function.update s.records data (some dd') x = some d) :
      ∃ d₀, s.records x = some d₀ ∧ d₀.Same d := by
    by_cases here : x = data
    case pos =>
      rw [here] at written ⊢
      cases new.symm.trans written
      exact ⟨dd, record, same⟩
    case neg =>
      exact ⟨d, (Function.update_of_ne here _ _).symm.trans written, rfl, rfl, rfl, rfl, rfl⟩
  refine
    { inv with
      alive := fun x => (inv.alive x).trans ⟨fun ⟨d, there⟩ => ?_, fun ⟨d, written⟩ => ?_⟩
      short := fun x d written => ?_
      serial := fun x d written => ?_
      apart := fun x d y d' first second equal => ?_
      queries := fun q member => ?_
      stack := fun a member => ?_
      lost := fun x member => ?_
      asked := fun x d written => ?_
      unsent := fun x d written => ?_ }
  · by_cases here : x = data
    case pos => exact ⟨dd', here ▸ new⟩
    case neg => exact ⟨d, (Function.update_of_ne here _ _).trans there⟩
  · obtain ⟨d₀, there, -⟩ := old written
    exact ⟨d₀, there⟩
  · obtain ⟨d₀, there, same⟩ := old written
    rw [same.start]
    exact inv.short x d₀ there
  · obtain ⟨d₀, there, same⟩ := old written
    rw [same.serial]
    exact inv.serial x d₀ there
  · obtain ⟨d₀, there, same⟩ := old first
    obtain ⟨d₁, there', same'⟩ := old second
    rw [same.serial, same'.serial] at equal
    exact inv.apart x d₀ y d₁ there there' equal
  · obtain ⟨d, there, rest⟩ := inv.queries q member
    exact ⟨d, (inv.other (mem_places_query member)).trans there, rest⟩
  · obtain ⟨d, there, rest⟩ := inv.stack a member
    exact ⟨d, (inv.other (mem_places_call member)).trans there, rest⟩
  · obtain ⟨d, n, m, there, rest⟩ := inv.lost x member
    exact ⟨d, n, m, (inv.other (mem_places_lost member)).trans there, rest⟩
  · obtain ⟨d₀, there, same⟩ := old written
    rw [same.request, same.agent, same.np]
    exact inv.asked x d₀ there
  · obtain ⟨d₀, there, same⟩ := old written
    rw [same.serial]
    exact inv.unsent x d₀ there

theorem alloc_records : (s.alloc data dd).records data = some dd := Function.update_self ..

theorem Inv.alloc (inv : Inv o ls hand s) (fresh : s.records data = none)
    (serial : dd.serial = s.started) (short : ∀ n ∈ dd.start, n.length ≤ 186)
    (asked : ∃ action ∈ ls, action.asks = some (dd.request, dd.agent, dd.np)) :
    Inv o ls (data :: hand) (s.alloc data dd) := by
  have free : data ∉ s.places hand := by
    intro place
    obtain ⟨d, record⟩ := (inv.alive data).mp place
    exact absurd (fresh.symm.trans record) nofun
  have keep {x : Nat} {d : DiscoverDns} (there : s.records x = some d) :
      (s.alloc data dd).records x = some d := by
    refine (Function.update_of_ne ?_ _ _).trans there
    rintro rfl
    exact absurd (fresh.symm.trans there) nofun
  have split {x : Nat} {d : DiscoverDns} (record : (s.alloc data dd).records x = some d) :
      x = data ∧ d = dd ∨ s.records x = some d := by
    by_cases here : x = data
    case pos =>
      rw [here] at record
      exact .inl ⟨here, Option.some.inj (record.symm.trans alloc_records)⟩
    case neg => exact .inr ((Function.update_of_ne here _ _).symm.trans record)
  refine
    { inv with
      nodup := List.nodup_cons.mpr ⟨free, inv.nodup⟩
      alive := fun x => ⟨fun place => ?_, fun ⟨d, record⟩ => ?_⟩
      short := fun x d record => ?_
      serial := fun x d record => ?_
      apart := fun x d y d' first second equal => ?_
      queries := fun q member => ?_
      stack := fun a member => ?_
      lost := fun x member => ?_
      asked := fun x d record => ?_
      sent := fun d member => ?_
      unsent := fun x d record => ?_ }
  · rcases List.mem_cons.mp place with rfl | place
    · exact ⟨dd, alloc_records⟩
    · obtain ⟨d, there⟩ := (inv.alive x).mp place
      exact ⟨d, keep there⟩
  · rcases split record with ⟨rfl, -⟩ | there
    · exact .head _
    · exact .tail _ ((inv.alive x).mpr ⟨d, there⟩)
  · rcases split record with ⟨-, rfl⟩ | there
    · exact short
    · exact inv.short x d there
  · rcases split record with ⟨-, rfl⟩ | there
    · exact Nat.lt_succ_of_le serial.le
    · exact Nat.lt_succ_of_lt (inv.serial x d there)
  · rcases split first with ⟨rfl, rfl⟩ | there <;> rcases split second with ⟨rfl, rfl⟩ | there'
    · rfl
    · exact absurd (inv.serial y d' there') (by omega)
    · exact absurd (inv.serial x d there) (by omega)
    · exact inv.apart x d y d' there there' equal
  · obtain ⟨d, there, rest⟩ := inv.queries q member
    exact ⟨d, keep there, rest⟩
  · obtain ⟨d, there, rest⟩ := inv.stack a member
    exact ⟨d, keep there, rest⟩
  · obtain ⟨d, n, m, there, rest⟩ := inv.lost x member
    exact ⟨d, n, m, keep there, rest⟩
  · rcases split record with ⟨-, rfl⟩ | there
    · exact asked
    · exact inv.asked x d there
  · obtain ⟨right, less, asked⟩ := inv.sent d member
    exact ⟨right, Nat.lt_succ_of_lt less, asked⟩
  · rcases split record with ⟨-, rfl⟩ | there
    · intro member
      obtain ⟨d', sent, equal⟩ := List.mem_map.mp member
      have less := (inv.sent d' sent).2.1
      omega
    · exact inv.unsent x d there

/-! ### Sending -/

theorem sendDiscoverRequest_eq :
    s.sendDiscoverRequest o dd = { s with
      ipCache := (dd.cached o).toList ++ s.ipCache
      sent := s.sent ++ [dd] } := by
  rw [Discoveries.sendDiscoverRequest, DiscoverDns.cached]
  cases dd.start with
  | none => rfl
  | some name => rfl

/-- The request is sent, and its record freed. -/
theorem Inv.send (inv : Inv o ls (data :: hand) s) (record : s.records data = some dd)
    {dd' : DiscoverDns} (serial : dd'.serial = dd.serial) (right : Right o ls dd')
    (asked : ∃ action ∈ ls, action.asks = some (dd'.request, dd'.agent, dd'.np)) :
    Inv o ls hand ((s.sendDiscoverRequest o dd').free data) := by
  have freed := inv.free
  have less : dd'.serial < s.started := serial ▸ inv.serial data dd record
  have unsent : dd'.serial ∉ s.sent.map DiscoverDns.serial := serial ▸ inv.unsent data dd record
  rw [sendDiscoverRequest_eq]
  refine
    { freed with
      sent := fun d member => ?_
      once := ?_
      unsent := fun x d there member => ?_
      names := ?_ }
  · rcases List.mem_append.mp member with member | member
    · exact inv.sent d member
    · rw [List.mem_singleton.mp member]
      exact ⟨right, less, asked⟩
  · change ((s.sent ++ [dd']).map DiscoverDns.serial).Nodup
    rw [List.map_append, List.nodup_append]
    refine ⟨inv.once, List.nodup_singleton _, fun k member k' here same => ?_⟩
    rw [same, List.mem_singleton.mp here] at member
    exact unsent member
  · change d.serial ∈ (s.sent ++ [dd']).map DiscoverDns.serial at member
    rw [List.map_append] at member
    rcases List.mem_append.mp member with member | member
    · exact freed.unsent x d there member
    · -- the record that has been freed was the only one with its number
      have different : x ≠ data := by
        rintro rfl
        exact absurd ((Function.update_self ..).symm.trans there) nofun
      have there' : s.records x = some d := (Function.update_of_ne different _ _).symm.trans there
      have equal : d.serial = dd.serial := (List.mem_singleton.mp member).trans serial
      exact different (inv.apart x d data dd there' record equal)
  · change ((dd'.cached o).toList ++ s.ipCache ++ s.given).Perm
      ((s.sent ++ [dd']).filterMap (DiscoverDns.cached o))
    rw [List.filterMap_append, List.append_assoc]
    have single : List.filterMap (DiscoverDns.cached o) [dd'] = (dd'.cached o).toList := by
      cases cached : dd'.cached o <;> simp [cached]
    rw [single]
    exact List.perm_append_comm.trans (inv.names.append_right _)

/-! ## The callbacks -/

theorem hton_sAddr {v : Nat} (read : inetAton n = some v) : o.hton 4 (sAddr o v) = v := by
  rw [← ByteOrder.ntoh_eq_hton]
  exact ntoh_sAddr (inetAton_lt read)

variable {ip : List UInt8}

theorem Inv.host (inv : Inv o ls (data :: hand) s) (record : s.records data = some dd)
    (read : inetAton ip = some v) (right : Right o ls { dd with startIp := v, endIp := v }) :
    Inv o ls hand (s.doHostDiscoverAfterDns o ip data) := by
  rw [Discoveries.doHostDiscoverAfterDns, record]
  dsimp only
  rw [read]
  dsimp only
  rw [hton_sAddr read]
  exact inv.send record rfl right (inv.asked data dd record)

theorem Inv.network (inv : Inv o ls (data :: hand) s) (record : s.records data = some dd)
    (read : inetAton ip = some v) {m : List UInt8} (request : dd.request = .network n m)
    (end_ : dd.end_ = some m) (resolves : Resolves o ls n v) :
    Inv o ls hand (s.doNetworkDiscoverAfterDns o ip data) := by
  rw [Discoveries.doNetworkDiscoverAfterDns, record]
  dsimp only
  rw [read, end_]
  dsimp only
  rw [guiNetwork_eq (inetAton_lt read)]
  cases mask : readMask o m with
  | none => exact inv.lose record request mask
  | some mask' =>
    exact inv.send record rfl (.network request resolves mask rfl) (inv.asked data dd record)

theorem ordered_range (dd : DiscoverDns) :
    ((dd.ordered o).startIp, (dd.ordered o).endIp) = inOrder o dd.startIp dd.endIp := by
  rw [DiscoverDns.ordered, inOrder]
  split <;> rfl

theorem ordered_ghosts (dd : DiscoverDns) : (dd.ordered o).serial = dd.serial ∧
    (dd.ordered o).request = dd.request ∧ (dd.ordered o).agent = dd.agent ∧
    (dd.ordered o).np = dd.np := by
  rw [DiscoverDns.ordered]
  split <;> exact ⟨rfl, rfl, rfl, rfl⟩

theorem Inv.last (inv : Inv o ls (data :: hand) s) (record : s.records data = some dd)
    (read : inetAton ip = some v) {f l : List UInt8} (request : dd.request = .range f l)
    (first : Resolves o ls f dd.startIp) (resolves : Resolves o ls l v) :
    Inv o ls hand (s.doDiscoverRangeAfterLastDns o ip data) := by
  rw [Discoveries.doDiscoverRangeAfterLastDns, record]
  dsimp only
  rw [read]
  dsimp only
  rw [hton_sAddr read]
  obtain ⟨serial, same, agent, np⟩ := ordered_ghosts (o := o) { dd with endIp := v }
  refine inv.send record serial (.range (same.trans request) first resolves (ordered_range _)) ?_
  rw [same, agent, np]
  exact inv.asked data dd record

theorem Inv.first (inv : Inv o ls (data :: hand) s) (record : s.records data = some dd)
    (read : inetAton ip = some v) {f l : List UInt8} (request : dd.request = .range f l)
    (start : dd.start = some f) (end_ : dd.end_ = some l) (flag : dd.network = false)
    (resolves : Resolves o ls f v) :
    Inv o ls hand (s.doDiscoverRangeAfterFirstDns o ip data) := by
  obtain ⟨start', _, startIp, endIp, network, np, agent, request', serial⟩ := dd
  cases end_
  rw [Discoveries.doDiscoverRangeAfterFirstDns, record]
  dsimp only
  rw [read]
  dsimp only
  rw [hton_sAddr read]
  cases last : inetAton l with
  | none =>
    let dd' : DiscoverDns := ⟨start', some l, v, endIp, network, np, agent, request', serial⟩
    have set : Inv o ls (data :: hand)
        { s with records := Function.update s.records data (some dd') } :=
      inv.set record ⟨rfl, rfl, rfl, rfl, rfl⟩
    exact set.call (a := .lookup .doDiscoverRangeAfterLastDns data) (Function.update_self ..) rfl
      (.last request start rfl last resolves rfl flag)
  | some w =>
    let dd' : DiscoverDns :=
      ⟨start', some l, v, sAddr o w, network, np, agent, request', serial⟩
    have set : Inv o ls (data :: hand)
        { s with records := Function.update s.records data (some dd') } :=
      inv.set record ⟨rfl, rfl, rfl, rfl, rfl⟩
    have record' : Function.update s.records data (some dd') data = some dd' :=
      Function.update_self ..
    exact set.last record' last request resolves (.inl last)

/-- The answer to the name that has been looked up comes. -/
theorem Inv.answer {cb : AnswerCb} (inv : Inv o ls (data :: hand) s)
    (record : s.records data = some dd) (awaits : Awaits o ls dd cb) (name : dd.name cb = some n)
    (read : inetAton ip = some v) (answered : Answered o ls n v) :
    Inv o ls hand (s.answer o cb ip data) := by
  cases awaits with
  | host request start aton flag =>
    cases start.symm.trans name
    exact inv.host record read (.host request (.inr ⟨aton, answered⟩) rfl)
  | network request start end_ aton flag =>
    cases start.symm.trans name
    exact inv.network record read request end_ (.inr ⟨aton, answered⟩)
  | first request start end_ aton flag =>
    cases start.symm.trans name
    exact inv.first record read request start end_ flag (.inr ⟨aton, answered⟩)
  | last request start end_ aton first startIp flag =>
    cases end_.symm.trans name
    exact inv.last record read request (startIp ▸ first) (.inr ⟨aton, answered⟩)
  | single request start failed flag =>
    cases start.symm.trans name
    exact inv.host record read (.single request answered failed rfl)

/-! ## The steps -/

/-- The text of an address is read as the address. -/
theorem inetAton_ip2strOn (inaddr : Nat) :
    inetAton (ip2strOn o inaddr) = some (o.ntoh 4 inaddr) := by
  obtain ⟨b₀, b₁, b₂, b₃, eq⟩ : ∃ b₀ b₁ b₂ b₃, o.bytes 4 inaddr = [b₀, b₁, b₂, b₃] := by
    have size : (o.bytes 4 inaddr).length = 4 := o.length_bytes
    match bytes : o.bytes 4 inaddr with
    | [b₀, b₁, b₂, b₃] => exact ⟨b₀, b₁, b₂, b₃, rfl⟩
    | [] | [_] | [_, _] | [_, _, _] | _ :: _ :: _ :: _ :: _ :: _ => simp [bytes] at size
  have small (b : UInt8) : (Numeral.ofNat b.toNat).value ≤ 255 := by
    rw [Numeral.value_ofNat]
    exact Nat.le_of_lt_succ b.toNat_lt
  have read := inetAton_dotted _ _ _ _ (small b₀) (small b₁) (small b₂) (small b₃)
  simp only [Numeral.value_ofNat] at read
  rw [ip2strOn, eq, OsScan.inetNtoa_eq, show text "." = [46] by decide, ByteOrder.ntoh, eq]
  simp only [List.append_assoc, List.cons_append, List.nil_append]
  refine read.trans (congrArg some ?_)
  simp [beNat]

theorem length_question (start : List UInt8) :
    (Discoveries.question start).length = start.length + 69 := by
  have front : (text "I could not get an IP address for '").length = 35 := by decide
  have back : (text "'. Do you want me to try it again?").length = 34 := by decide
  rw [Discoveries.question, List.length_append, List.length_append, front, back]
  omega

variable {cb : AnswerCb}

/-- After a failure the request can be tried again. -/
theorem Awaits.retry (awaits : Awaits o ls dd cb) (name : dd.name cb = some n)
    (failed : Unanswered ls n) : Awaits o ls dd dd.retry ∧ ∃ m, dd.start = some m := by
  rw [DiscoverDns.retry]
  cases awaits with
  | host request start aton flag =>
    exact ⟨by simpa [flag] using .host request start aton flag, _, start⟩
  | network request start end_ aton flag =>
    exact ⟨by simpa [flag] using .network request start end_ aton flag, _, start⟩
  | first request start end_ aton flag =>
    cases start.symm.trans name
    exact ⟨by simpa [flag] using .single request start (.inl ⟨aton, failed⟩) flag, _, start⟩
  | last request start end_ aton first startIp flag =>
    cases end_.symm.trans name
    exact ⟨by simpa [flag] using .single request start (.inr ⟨aton, failed⟩) flag, _, start⟩
  | single request start failed' flag =>
    exact ⟨by simpa [flag] using .single request start failed' flag, _, start⟩

theorem Awaits.name (awaits : Awaits o ls dd cb) : ∃ n, dd.name cb = some n := by
  cases awaits with
  | host request start | network request start | first request start | single request start =>
    exact ⟨_, start⟩
  | last request start end_ => exact ⟨_, end_⟩

theorem Inv.timeout (inv : Inv o ls (data :: hand) s) (record : s.records data = some dd)
    (awaits : Awaits o ls dd cb) (name : dd.name cb = some n) (failed : Unanswered ls n) :
    Inv o ls hand (s.dnsTimeout data) := by
  obtain ⟨again, m, start⟩ := awaits.retry name failed
  have few := inv.short data dd record m start
  have fits : (Discoveries.question m).length < 256 := by
    rw [length_question]
    omega
  rw [Discoveries.dnsTimeout, record, Option.bind_some, start]
  dsimp only
  rw [if_pos fits]
  exact inv.call (a := .timeout data) record rfl again

theorem Inv.dialog (inv : Inv o ls (data :: hand) s) (record : s.records data = some dd)
    (awaits : Awaits o ls dd dd.retry) (again : Bool) :
    Inv o ls hand (s.dnsTimeoutAnswered again data) := by
  rw [Discoveries.dnsTimeoutAnswered, record]
  cases again with
  | true => exact inv.call (a := .lookup dd.retry data) record rfl awaits
  | false => exact inv.free

theorem Inv.submit (inv : Inv o ls (data :: hand) s) (record : s.records data = some dd)
    (awaits : Awaits o ls dd cb) : Inv o ls hand (s.dnsSubmit cb data) := by
  obtain ⟨n, name⟩ := awaits.name
  rw [Discoveries.dnsSubmit, record, Option.bind_some, name]
  exact inv.ask record awaits name

/-! ### Requests -/

section Request

variable {agent np : Nat}

theorem Inv.discoverNetwork (inv : Inv o ls hand s) (fresh : s.records data = none)
    {m : List UInt8} (short : n.length ≤ 186)
    (asked : ∃ action ∈ ls, action.asks = some (.network n m, agent, np)) :
    Inv o ls hand (s.discoverNetwork o agent np data n m) := by
  have bound : ∀ x ∈ some n, x.length ≤ 186 := fun x same => Option.some.inj same ▸ short
  rw [Discoveries.discoverNetwork]
  cases read : inetAton n with
  | none =>
    exact (inv.alloc fresh rfl bound asked).call
      (a := .lookup .doNetworkDiscoverAfterDns data) alloc_records rfl
      (.network rfl rfl rfl read rfl)
  | some v => exact (inv.alloc fresh rfl bound asked).network alloc_records read rfl rfl (.inl read)

theorem Inv.discoverHost (inv : Inv o ls hand s) (fresh : s.records data = none)
    (short : n.length ≤ 186)
    (asked : ∃ action ∈ ls, action.asks = some (.host n, agent, np)) :
    Inv o ls hand (s.discoverHost o agent np data n) := by
  rw [Discoveries.discoverHost]
  cases read : inetAton n with
  | none =>
    have bound : ∀ x ∈ some n, x.length ≤ 186 := fun x same => Option.some.inj same ▸ short
    exact (inv.alloc fresh rfl bound asked).call
      (a := .lookup .doHostDiscoverAfterDns data) alloc_records rfl (.host rfl rfl read rfl)
  | some v =>
    have bound : ∀ x ∈ (none : Option (List UInt8)), x.length ≤ 186 := nofun
    exact (inv.alloc fresh rfl bound asked).host alloc_records read (.host rfl (.inl read) rfl)

theorem Inv.discoverRange (inv : Inv o ls hand s) (fresh : s.records data = none)
    {f l : List UInt8} (short : f.length ≤ 186)
    (asked : ∃ action ∈ ls, action.asks = some (.range f l, agent, np)) :
    Inv o ls hand (s.doDiscoverRange o agent np data f l) := by
  have bound : ∀ x ∈ some f, x.length ≤ 186 := fun x same => Option.some.inj same ▸ short
  rw [Discoveries.doDiscoverRange]
  cases read : inetAton f with
  | none =>
    exact (inv.alloc fresh rfl bound asked).call
      (a := .lookup .doDiscoverRangeAfterFirstDns data) alloc_records rfl
      (.first rfl rfl rfl read rfl)
  | some v =>
    exact (inv.alloc fresh rfl bound asked).first alloc_records read rfl rfl rfl rfl (.inl read)

end Request

/-- What `dns_timeout` prints of the request. -/
def Action.start : Action → Option (List UInt8)
  | .discover _ _ _ host =>
    match strchr host 47 with
    | some c => some (host.take c)
    | none => some host
  | .discoverRange _ _ _ first _ => some first
  | _ => none

/-- The names that can be printed have so many bytes at most. -/
def Short (bound : Nat) (_ : Discoveries) (action : Action) : Prop :=
  ∀ n ∈ action.start, n.length ≤ bound

/-- A name is taken out of the cache. -/
theorem getIpCache_perm {ip : Nat} {cache rest : List (Nat × List UInt8)}
    (found : getIpCache ip cache = some (n, rest)) : cache.Perm ((ip, n) :: rest) := by
  induction cache generalizing rest with
  | nil => cases found
  | cons p ps ih =>
    rw [getIpCache] at found
    by_cases here : ip = p.1
    case pos =>
      rw [if_pos here] at found
      cases found
      rw [here]
    case neg =>
      rw [if_neg here] at found
      obtain ⟨⟨n', rest'⟩, later, same⟩ := Option.map_eq_some_iff.mp found
      cases same
      exact ((ih later).cons p).trans (List.Perm.swap ..)

theorem Inv.kept (inv : Inv o ls [] s) {action : Action} (short : Short 186 s action)
    (stepped : step o s action = some s') : Inv o (ls ++ [action]) [] s' := by
  have now : action ∈ ls ++ [action] := List.mem_append_right _ (List.mem_singleton_self _)
  replace inv : Inv o (ls ++ [action]) [] s := inv.mono (List.subset_append_left ..)
  cases action with
  | discover agent np data host =>
    rw [step] at stepped
    split at stepped
    case isFalse => cases stepped
    case isTrue fresh =>
      cases stepped
      have asks := (⟨_, now, rfl⟩ : ∃ action ∈ ls ++ [.discover agent np data host],
        action.asks = (Action.discover agent np data host).asks)
      have start : ∀ n ∈ (Action.discover agent np data host).start, n.length ≤ 186 := short
      rw [Discoveries.doDiscover]
      rw [Action.asks] at asks
      rw [Action.start] at start
      cases slash : strchr host 47 with
      | none =>
        rw [slash] at asks start
        exact inv.discoverHost (Option.isNone_iff_eq_none.mp fresh) (start _ rfl) asks
      | some c =>
        rw [slash] at asks start
        exact inv.discoverNetwork (Option.isNone_iff_eq_none.mp fresh) (start _ rfl) asks
  | discoverRange agent np data f l =>
    rw [step] at stepped
    split at stepped
    case isFalse => cases stepped
    case isTrue fresh =>
      cases stepped
      exact inv.discoverRange (Option.isNone_iff_eq_none.mp fresh) (short _ rfl) ⟨_, now, rfl⟩
  | submit =>
    rw [step] at stepped
    split at stepped
    case h_2 => cases stepped
    case h_1 cb data stack top =>
      cases stepped
      obtain ⟨dd, record, awaits⟩ := inv.stack (.lookup cb data) (top ▸ .head _)
      exact (inv.returned top).submit record awaits
  | answer q inaddr =>
    rw [step] at stepped
    split at stepped
    case isFalse => cases stepped
    case isTrue member =>
      obtain ⟨dd, record, awaits, name⟩ := inv.queries q member
      cases inaddr with
      | none =>
        cases stepped
        exact (inv.answered member).timeout record awaits name ⟨q, now, rfl⟩
      | some inaddr =>
        cases stepped
        exact (inv.answered member).answer record awaits name (inetAton_ip2strOn inaddr)
          ⟨q, inaddr, now, rfl, rfl⟩
  | dialog again =>
    rw [step] at stepped
    split at stepped
    case h_2 => cases stepped
    case h_1 data stack top =>
      cases stepped
      obtain ⟨dd, record, awaits⟩ := inv.stack (.timeout data) (top ▸ .head _)
      exact (inv.returned top).dialog record awaits again
  | reply ip =>
    rw [step] at stepped
    split at stepped
    case h_2 =>
      cases stepped
      exact inv
    case h_1 name rest found =>
      cases stepped
      refine { inv with names := ?_ }
      refine List.Perm.trans ?_ inv.names
      exact (List.perm_middle.trans ((getIpCache_perm found).symm.append_right _))

theorem inv_initial : Inv o [] [] initial where
  fault := rfl
  nodup := .nil
  alive data := by simp [Discoveries.held, initial]
  short _ _ record := absurd record nofun
  serial _ _ record := absurd record nofun
  apart _ _ _ _ record := absurd record nofun
  queries _ member := absurd member List.not_mem_nil
  stack _ member := absurd member List.not_mem_nil
  lost _ member := absurd member List.not_mem_nil
  asked _ _ record := absurd record nofun
  sent _ member := absurd member List.not_mem_nil
  once := .nil
  unsent _ _ record := absurd record nofun
  names := .nil

theorem run_inv (run : Run (Guarded (Short 186) (Step o)) initial ls s) : Inv o ls [] s :=
  run.invariant (I := fun ls s => Inv o ls [] s) inv_initial
    fun _ _ _ _ _ inv ⟨short, stepped⟩ => inv.kept short stepped

/-! ## What has been sent -/

theorem sendDiscoverRequest_sent : s.sent <+: (s.sendDiscoverRequest o dd).sent := by
  rw [sendDiscoverRequest_eq]
  exact List.prefix_append ..

theorem doDiscoverRangeAfterLastDns_sent (ip : List UInt8) :
    s.sent <+: (s.doDiscoverRangeAfterLastDns o ip data).sent := by
  unfold Discoveries.doDiscoverRangeAfterLastDns
  split
  · exact List.prefix_rfl
  split
  · exact List.prefix_rfl
  · exact sendDiscoverRequest_sent

/-- A callback sends, and takes nothing back. -/
theorem answer_sent (cb : AnswerCb) (ip : List UInt8) :
    s.sent <+: (s.answer o cb ip data).sent := by
  cases cb with
  | doHostDiscoverAfterDns =>
    change s.sent <+: (s.doHostDiscoverAfterDns o ip data).sent
    unfold Discoveries.doHostDiscoverAfterDns
    split
    · exact List.prefix_rfl
    split
    · exact List.prefix_rfl
    · exact sendDiscoverRequest_sent
  | doNetworkDiscoverAfterDns =>
    change s.sent <+: (s.doNetworkDiscoverAfterDns o ip data).sent
    unfold Discoveries.doNetworkDiscoverAfterDns
    split
    · exact List.prefix_rfl
    split
    · exact List.prefix_rfl
    · exact List.prefix_rfl
    split
    · exact List.prefix_rfl
    · exact sendDiscoverRequest_sent
  | doDiscoverRangeAfterFirstDns =>
    change s.sent <+: (s.doDiscoverRangeAfterFirstDns o ip data).sent
    unfold Discoveries.doDiscoverRangeAfterFirstDns
    split
    · exact List.prefix_rfl
    split
    · exact List.prefix_rfl
    · exact List.prefix_rfl
    dsimp only
    split
    · exact List.prefix_rfl
    · refine List.IsPrefix.trans ?_ (doDiscoverRangeAfterLastDns_sent _)
      exact List.prefix_rfl
  | doDiscoverRangeAfterLastDns => exact doDiscoverRangeAfterLastDns_sent ip

theorem Step.sent {action : Action} (stepped : Step o s action s') : s.sent <+: s'.sent := by
  cases action with
  | discover agent np data host =>
    rw [Step, step] at stepped
    split at stepped
    case isFalse => cases stepped
    case isTrue =>
      cases stepped
      rw [Discoveries.doDiscover]
      split
      case h_1 c slash =>
        rw [Discoveries.discoverNetwork]
        split
        · exact List.prefix_rfl
        · exact answer_sent (s := s.alloc data _) .doNetworkDiscoverAfterDns _
      case h_2 =>
        rw [Discoveries.discoverHost]
        split
        · exact List.prefix_rfl
        · exact answer_sent (s := s.alloc data _) .doHostDiscoverAfterDns _
  | discoverRange agent np data first last =>
    rw [Step, step] at stepped
    split at stepped
    case isFalse => cases stepped
    case isTrue =>
      cases stepped
      rw [Discoveries.doDiscoverRange]
      split
      · exact List.prefix_rfl
      · exact answer_sent (s := s.alloc data _) .doDiscoverRangeAfterFirstDns _
  | submit =>
    rw [Step, step] at stepped
    split at stepped
    case h_2 => cases stepped
    case h_1 =>
      cases stepped
      unfold Discoveries.dnsSubmit
      split <;> exact List.prefix_rfl
  | answer q inaddr =>
    rw [Step, step] at stepped
    split at stepped
    case isFalse => cases stepped
    case isTrue =>
      cases inaddr with
      | some inaddr =>
        cases stepped
        exact answer_sent (s := { s with queries := s.queries.erase q }) q.answerCb _
      | none =>
        cases stepped
        unfold Discoveries.dnsTimeout
        split
        · exact List.prefix_rfl
        · split <;> exact List.prefix_rfl
  | dialog again =>
    rw [Step, step] at stepped
    split at stepped
    case h_2 => cases stepped
    case h_1 =>
      cases stepped
      unfold Discoveries.dnsTimeoutAnswered
      split
      · exact List.prefix_rfl
      · split <;> exact List.prefix_rfl
  | reply ip =>
    rw [Step, step] at stepped
    split at stepped <;> cases stepped <;> exact List.prefix_rfl

/-! ## Safety -/

/-- No memory is used that must not be.  Each `discover_dns` is in one place; those in no place have
    an invalid netmask.  No request is sent twice. -/
structure Discoveries.Safe (o : ByteOrder) (s : Discoveries) : Prop where
  fault : s.fault = false
  held : (s.held ++ s.lost).Nodup
  alive : ∀ data, data ∈ s.held ++ s.lost ↔ ∃ dd, s.records data = some dd
  lost : ∀ data ∈ s.lost, ∃ dd n m, s.records data = some dd ∧ dd.request = .network n m ∧
    readMask o m = none
  once : (s.sent.map DiscoverDns.serial).Nodup

theorem Inv.safe (inv : Inv o ls [] s) : s.Safe o where
  fault := inv.fault
  held := inv.nodup
  alive := inv.alive
  lost := inv.lost
  once := inv.once

def longName (length : Nat) : List UInt8 := List.replicate length 97

/-- The question about a long name does not fit into its buffer. -/
theorem longName_fault {length : Nat} (long : 186 < length) :
    ∃ s, Run (Guarded (Short length) (Step o)) initial
      [.discover 0 0 0 (longName length), .submit,
        .answer ⟨longName length, .doHostDiscoverAfterDns, 0⟩ none] s ∧ s.fault = true := by
  have noSlash : strchr (longName length) 47 = none := by
    refine List.idxOf?_eq_none_iff.mpr fun member => ?_
    exact absurd (List.eq_of_mem_replicate member) (by decide)
  have noAddress : inetAton (longName length) = none := by
    obtain ⟨k, rfl⟩ := Nat.exists_eq_add_of_lt long
    rfl
  let dd : DiscoverDns :=
    ⟨some (longName length), none, 0, 0, false, 0, 0, .host (longName length), 0⟩
  let q : DnsQuery := ⟨longName length, .doHostDiscoverAfterDns, 0⟩
  have asked : Step o initial (.discover 0 0 0 (longName length))
      ((initial.alloc 0 dd).dnsNameLookup .doHostDiscoverAfterDns 0) := by
    have free : (initial.records 0).isNone = true := rfl
    rw [Step, step, if_pos free, Discoveries.doDiscover, noSlash]
    dsimp only
    rw [Discoveries.discoverHost, noAddress]
    rfl
  have submitted : Step o ((initial.alloc 0 dd).dnsNameLookup .doHostDiscoverAfterDns 0) .submit
      { initial.alloc 0 dd with queries := [q] } := rfl
  have failed : Step o { initial.alloc 0 dd with queries := [q] } (.answer q none)
      { initial.alloc 0 dd with queries := [q].erase q, fault := true } := by
    have overflow : ¬ (Discoveries.question (longName length)).length < 256 := by
      rw [length_question, longName, List.length_replicate]
      omega
    rw [Step, step, if_pos (List.mem_singleton_self q)]
    change some (if (Discoveries.question (longName length)).length < 256 then _ else _) = _
    rw [if_neg overflow]
    rfl
  have short {s : Discoveries} {action : Action} (start : action.start = some (longName length) ∨
      action.start = none) : Short length s action := by
    intro n member
    rcases start with start | start
    · rw [start] at member
      cases member
      exact (List.length_replicate ..).le
    · rw [start] at member
      cases member
  have start : (Action.discover 0 0 0 (longName length)).start = some (longName length) := by
    rw [Action.start, noSlash]
  exact ⟨_, .snoc (.snoc (.snoc .refl ⟨short (.inl start), asked⟩) ⟨short (.inr rfl), submitted⟩)
    ⟨short (.inr rfl), failed⟩, rfl⟩

/-- Whatever the user does and however the lookups end, all goes well, exactly if no name is longer
    than 186 bytes. -/
theorem discovery_safe_iff (o : ByteOrder) (bound : Nat) :
    (∀ ls s, Run (Guarded (Short bound) (Step o)) initial ls s → s.Safe o) ↔ bound ≤ 186 := by
  constructor
  · intro safe
    by_contra long
    obtain ⟨s, run, fault⟩ := longName_fault (o := o) (Nat.lt_of_not_le long)
    exact absurd ((safe _ s run).fault.symm.trans fault) Bool.false_ne_true
  · intro small ls s run
    have short : Run (Guarded (Short 186) (Step o)) initial ls s :=
      run.mono fun _ _ _ ⟨short, stepped⟩ => ⟨fun n start => (short n start).trans small, stepped⟩
    exact (run_inv short).safe

/-! ## What the agent makes of the requests -/

/-- What `handle_discover_request` makes of the event of a request, with the rest of the event. -/
def DiscoverDns.accepted (o : ByteOrder) (dd : DiscoverDns) (np : List UInt8) (ee : Mem) :
    Except (List UInt8) (Nat × Nat) :=
  handleDiscoverRequestOn o (Fields.sendDiscoverRequest o ⟨dd.startIp, dd.endIp, np⟩ ee)

theorem ntoh_ntoh_word {x : Nat} (small : x < 2 ^ 32) : o.ntoh 4 (o.ntoh 4 x) = x :=
  ByteOrder.ntoh_ntoh.trans (Nat.mod_eq_of_lt small)

theorem ntoh_eq_zero {x : Nat} (small : x < 2 ^ 32) : o.ntoh 4 x = 0 ↔ x = 0 := by
  have zero : o.ntoh 4 0 = 0 := by cases o <;> rfl
  refine ⟨fun same => ?_, fun same => same ▸ zero⟩
  rw [← ntoh_ntoh_word (o := o) small, same, zero]

/-- The agent refuses a range, or accepts it as it is. -/
theorem accepted_iff {p r : Nat × Nat} {np : List UInt8} {ee : Mem}
    (range : (dd.startIp, dd.endIp) = p) (small : p.1 < 2 ^ 32) (small' : p.2 < 2 ^ 32) :
    dd.accepted o np ee = .ok r ↔ p = r ∧ p.1 ≤ p.2 ∧ p.1 ≠ 0 ∧ p.2 ≠ 0 := by
  subst range
  have word {x : Nat} (small : x < 2 ^ 32) : o.num (o.bytes 4 x) = x :=
    ByteOrder.num_bytes.trans (Nat.mod_eq_of_lt small)
  have first : o.get 4 (Fields.sendDiscoverRequest o ⟨dd.startIp, dd.endIp, np⟩ ee) 0 =
      dd.startIp := by
    simp (disch := omega) only [Fields.sendDiscoverRequest, ByteOrder.get_store_of_disjoint,
      ByteOrder.get_put_of_disjoint, ByteOrder.get_put, word small]
  have last : o.get 4 (Fields.sendDiscoverRequest o ⟨dd.startIp, dd.endIp, np⟩ ee) 4 =
      dd.endIp := by
    simp (disch := omega) only [Fields.sendDiscoverRequest, ByteOrder.get_store_of_disjoint,
      ByteOrder.get_put_of_disjoint, ByteOrder.get_put, word small']
  rw [DiscoverDns.accepted, handleDiscoverRequestOn, first, last, ntoh_ntoh_word small,
    ntoh_ntoh_word small']
  have zeros : o.ntoh 4 dd.startIp = 0 ∨ o.ntoh 4 dd.endIp = 0 ↔
      dd.startIp = 0 ∨ dd.endIp = 0 := or_congr (ntoh_eq_zero small) (ntoh_eq_zero small')
  by_cases larger : dd.startIp > dd.endIp
  case pos =>
    rw [if_pos larger]
    exact ⟨nofun, fun ⟨_, le, _⟩ => absurd larger (Nat.not_lt.mpr le)⟩
  case neg =>
    rw [if_neg larger]
    have le := Nat.not_lt.mp larger
    by_cases zero : dd.startIp = 0 ∨ dd.endIp = 0
    case pos =>
      rw [if_pos (zeros.mpr zero)]
      exact ⟨nofun, fun ⟨_, _, first, last⟩ => absurd zero (not_or.mpr ⟨first, last⟩)⟩
    case neg =>
      rw [if_neg (mt zeros.mp zero)]
      exact ⟨fun same => ⟨Except.ok.inj same, le, not_or.mp zero⟩, fun ⟨same, _⟩ => same ▸ rfl⟩

/-- Two addresses in the order of their bytes from the last to the first are in order exactly if
    that order agrees with the right one. -/
theorem inOrder_eq_iff {a b : Nat} :
    inOrder o a b = (min a b, max a b) ↔ (o.ntoh 4 a ≤ o.ntoh 4 b ↔ a ≤ b) := by
  rw [inOrder]
  by_cases swapped : o.ntoh 4 a > o.ntoh 4 b
  case neg =>
    rw [if_neg swapped]
    have le := Nat.not_lt.mp swapped
    simp only [le, true_iff, Prod.mk.injEq]
    omega
  case pos =>
    rw [if_pos swapped]
    have different : a ≠ b := by
      rintro rfl
      exact Nat.lt_irrefl _ swapped
    simp only [Nat.not_le.mpr swapped, false_iff, Prod.mk.injEq]
    omega

/-- How the agent takes a request that has been sent. -/
structure Accepted (o : ByteOrder) (ls : List Action) (dd : DiscoverDns) (np : List UInt8)
    (ee : Mem) : Prop where
  host : ∀ n, dd.request = .host n → ∃ v, Resolves o ls n v ∧
    (dd.accepted o np ee = .ok (v, v) ↔ v ≠ 0)
  network : ∀ n m, dd.request = .network n m → ∃ v mask, Resolves o ls n v ∧
    readMask o m = some mask ∧ (dd.accepted o np ee = .ok (blockOf v mask) ↔ v &&& mask ≠ 0) ∧
    ∀ x < 2 ^ 32, (blockOf v mask).1 ≤ x ∧ x ≤ (blockOf v mask).2 ↔ x &&& mask = v &&& mask
  range : ∀ f l a b, dd.request = .range f l → inetAton f = some a → inetAton l = some b →
    (dd.accepted o np ee = .ok (min a b, max a b) ↔
      a ≠ 0 ∧ b ≠ 0 ∧ (o.ntoh 4 a ≤ o.ntoh 4 b ↔ a ≤ b))

theorem Answered.lt (answered : Answered o ls n v) : v < 2 ^ 32 := by
  obtain ⟨q, inaddr, -, -, rfl⟩ := answered
  have bound := beNat_lt (o.bytes 4 inaddr)
  rwa [ByteOrder.length_bytes] at bound

theorem Resolves.lt (resolves : Resolves o ls n v) : v < 2 ^ 32 := by
  rcases resolves with read | ⟨-, answered⟩
  · exact inetAton_lt read
  · exact answered.lt

theorem Resolves.address {a : Nat} (resolves : Resolves o ls n v) (read : inetAton n = some a) :
    v = a := by
  rcases resolves with read' | ⟨none, -⟩
  · exact Option.some.inj (read'.symm.trans read)
  · exact absurd (none.symm.trans read) nofun

theorem leadingOnes_of_readMask {m : List UInt8} {mask : Nat} (read : readMask o m = some mask) :
    LeadingOnes mask := by
  rcases readMask_eq o m with ⟨mask', -, ones, eq⟩ | ⟨-, eq⟩
  · cases read.symm.trans eq
    exact ones
  · rw [read] at eq
    split at eq
    next bounds =>
      cases eq
      exact ⟨(atoi m).toNat, by omega, by omega, rfl⟩
    next => cases eq

theorem blockOf_lt {mask : Nat} (small : v < 2 ^ 32) (ones : LeadingOnes mask) :
    (blockOf v mask).1 < 2 ^ 32 ∧ (blockOf v mask).2 < 2 ^ 32 := by
  obtain ⟨len, -, le, rfl⟩ := ones
  have first : v &&& prefixMask len < 2 ^ 32 := Nat.and_le_left.trans_lt small
  have rest : 0xffffffff ^^^ prefixMask len < 2 ^ 32 :=
    Nat.xor_lt_two_pow (by decide) (Nat.sub_lt (by decide) (Nat.pow_pos (by decide)))
  exact ⟨first, Nat.or_lt_two_pow first rest⟩

theorem inOrder_lt {a b : Nat} (first : a < 2 ^ 32) (last : b < 2 ^ 32) :
    (inOrder o a b).1 < 2 ^ 32 ∧ (inOrder o a b).2 < 2 ^ 32 := by
  rw [inOrder]
  split
  · exact ⟨last, first⟩
  · exact ⟨first, last⟩

theorem Right.lt (right : Right o ls dd) : dd.startIp < 2 ^ 32 ∧ dd.endIp < 2 ^ 32 := by
  change (dd.startIp, dd.endIp).1 < 2 ^ 32 ∧ (dd.startIp, dd.endIp).2 < 2 ^ 32
  cases right with
  | host request resolves range =>
    rw [range]
    exact ⟨resolves.lt, resolves.lt⟩
  | network request resolves read range =>
    rw [range]
    exact blockOf_lt resolves.lt (leadingOnes_of_readMask read)
  | range request first last range =>
    rw [range]
    exact inOrder_lt first.lt last.lt
  | single request first failed range =>
    rw [range]
    exact ⟨first.lt, first.lt⟩

theorem Right.accepted (right : Right o ls dd) (np : List UInt8) (ee : Mem) :
    Accepted o ls dd np ee := by
  cases right with
  | host request resolves range =>
    refine ⟨fun n same => ?_, fun n m same => ?_, fun f l a b same => ?_⟩ <;>
      cases request.symm.trans same
    refine ⟨_, resolves, (accepted_iff range resolves.lt resolves.lt).trans ?_⟩
    simp
  | @network n m v mask request resolves read range =>
    refine ⟨fun n same => ?_, fun n m same => ?_, fun f l a b same => ?_⟩ <;>
      cases request.symm.trans same
    have ones := leadingOnes_of_readMask read
    obtain ⟨small, small'⟩ := blockOf_lt resolves.lt ones
    obtain ⟨len, -, le, rfl⟩ := ones
    obtain ⟨ordered, block⟩ := block_prefixMask resolves.lt le
    refine ⟨v, _, resolves, read, ?_, block⟩
    rw [accepted_iff range small small']
    refine ⟨fun ⟨_, _, first, _⟩ => first, fun first => ⟨rfl, ordered, first, ?_⟩⟩
    exact Nat.ne_of_gt ((Nat.pos_of_ne_zero first).trans_le ordered)
  | @range f l a b request first last range =>
    refine ⟨fun n same => ?_, fun n m same => ?_, fun _ _ _ _ same reada readb => ?_⟩ <;>
      cases request.symm.trans same
    obtain rfl := first.address reada
    obtain rfl := last.address readb
    obtain ⟨small, small'⟩ := inOrder_lt (o := o) first.lt last.lt
    rw [accepted_iff range small small', ← inOrder_eq_iff]
    constructor
    · rintro ⟨same, -, positive, positive'⟩
      rw [same] at positive positive'
      refine ⟨?_, ?_, same⟩ <;> omega
    · rintro ⟨positive, positive', same⟩
      rw [same]
      refine ⟨rfl, ?_, ?_, ?_⟩ <;> omega
  | single request first failed range =>
    refine ⟨fun n same => ?_, fun n m same => ?_, fun f l a b same reada readb => ?_⟩ <;>
      cases request.symm.trans same
    rcases failed with ⟨none, -⟩ | ⟨none, -⟩
    · exact absurd (none.symm.trans reada) nofun
    · exact absurd (none.symm.trans readb) nofun

/-! ## Runs -/

/-- What has been sent is what has been asked for, once each, and the agent takes it so.  The names
    of the requests are given to hosts, or wait for them. -/
theorem requests_right (run : Run (Guarded (Short 186) (Step o)) initial ls s) :
    (∀ dd ∈ s.sent, Right o ls dd ∧
      (∃ action ∈ ls, action.asks = some (dd.request, dd.agent, dd.np)) ∧
      ∀ np ee, Accepted o ls dd np ee) ∧
    (s.sent.map DiscoverDns.serial).Nodup ∧
    (s.ipCache ++ s.given).Perm (s.sent.filterMap (DiscoverDns.cached o)) := by
  have inv := run_inv run
  refine ⟨fun dd member => ?_, inv.once, inv.names⟩
  obtain ⟨right, -, asked⟩ := inv.sent dd member
  exact ⟨right, asked, right.accepted⟩

/-- The first name of a range is not found at first, and is found when the user tries again; a host
    of its address replies later.  A range of two addresses is asked for in between. -/
def retried : List Action :=
  [.discoverRange 0 0 0 (text "a") (text "b"), .submit,
    .answer ⟨text "a", .doDiscoverRangeAfterFirstDns, 0⟩ none, .dialog true, .submit,
    .answer ⟨text "a", .doHostDiscoverAfterDns, 0⟩ (some 0x0100000a),
    .discoverRange 0 0 0 (text "10.0.0.5") (text "10.0.1.1"), .reply 0x0100000a]

/-- The range from 10.0.0.5 to 10.0.1.1 is sent the other way round, and refused. -/
theorem requests_right_range : ∃ s, Run (Step .little) initial retried s ∧
    s.sent.map (fun dd => (dd.startIp, dd.endIp)) =
      [(0x0a000001, 0x0a000001), (0x0a000101, 0x0a000005)] ∧
    (∀ dd ∈ s.sent, Right .little retried dd) ∧ s.given = [(0x0100000a, text "a")] ∧
    ∀ dd ∈ s.sent, ∀ np ee, dd.accepted .little np ee ≠ .ok (0x0a000005, 0x0a000101) := by
  let single : DiscoverDns := ⟨some (text "a"), some (text "b"), 0x0a000001, 0x0a000001, false, 0,
    0, .range (text "a") (text "b"), 0⟩
  let swapped : DiscoverDns := ⟨some (text "10.0.1.1"), some (text "10.0.0.5"), 0x0a000101,
    0x0a000005, false, 0, 0, .range (text "10.0.0.5") (text "10.0.1.1"), 1⟩
  have exec : (retried.foldlM (step .little) initial).any (fun s =>
      s.sent == [single, swapped] && s.given == [(0x0100000a, text "a")]) = true := by
    decide +kernel
  obtain ⟨s, ended, here⟩ := (Option.any_eq_true _ _).mp exec
  simp only [Bool.and_eq_true, beq_iff_eq] at here
  obtain ⟨sent, given⟩ := here
  have run : Run (Step .little) initial retried s := Run.of_exec id ended
  have short : ∀ action ∈ retried, ∀ s, Short 186 s action := by
    have starts : ∀ action ∈ retried, ∀ n ∈ action.start, n.length ≤ 186 := by decide
    exact fun action member _ => starts action member
  have requests := (requests_right (run.guarded short)).1
  refine ⟨s, run, by rw [sent]; rfl, fun dd member => (requests dd member).1, given,
    fun dd member np ee accepted => ?_⟩
  have right := (requests dd member).2.2 np ee
  rw [sent, List.mem_cons, List.mem_singleton] at member
  rcases member with rfl | rfl
  · have same := (accepted_iff (p := (0x0a000001, 0x0a000001)) rfl (by decide)
      (by decide)).mp accepted
    exact absurd same.1 (by decide)
  · have first : inetAton (text "10.0.0.5") = some 0x0a000005 := by decide +kernel
    have last : inetAton (text "10.0.1.1") = some 0x0a000101 := by decide +kernel
    have order := ((right.range _ _ _ _ rfl first last).mp accepted).2.2
    exact absurd order (by decide +kernel)

end Cheops.Gui.Discovery
