import Cheops.Scheduler.Basic

/-! # The cache of addresses (`cache.c`)

A list of entries with the times they were made at.  A call of `add_to_cache` on a full cache
writes over the entry that its scan has found.

The scan goes for the latest time, so it is the newest entry that is replaced; `lru_iff` says for
which sequences of calls the cache is what its callers take it for.
-/

namespace Cheops.Cache

open Cheops.Scheduler (Timeval)

def MAX_PING_CACHE_ENTRIES : Nat := 128

/-- `struct cache`. -/
structure Entry where
  data : Nat
  tv : Timeval
deriving DecidableEq, Repr

/-- The list `Cache`, in the order of its `next` pointers, and the static `count` of
    `add_to_cache`.  `destroyed` is a ghost: what the callbacks were applied to. -/
structure CacheState where
  cache : List Entry
  count : Nat
  destroyed : List Nat
deriving DecidableEq, Repr

def initial : CacheState := ⟨[], 0, []⟩

/-- A call of `add_to_cache`: its arguments (`callback` says whether there is one), and what
    `gettimeofday` gives. -/
structure Call where
  data : Nat
  callback : Bool
  now : Timeval
deriving DecidableEq, Repr

/-! ## `add_to_cache` and `in_cache` -/

def millis (tv : Timeval) : Int := tv.tvSec * 1000 + tv.tvUsec.tdiv 1000

/-- The scan: `old` and its place, and the entries from `p` on with their places. -/
def scan : Entry × Nat → List (Entry × Nat) → Entry × Nat
  | old, [] => old
  | old, p :: rest => scan (if millis old.1.tv < millis p.1.tv then p else old) rest

/-- The entry at `old` in a cache that begins with `head`, and its place. -/
def victim (head : Entry) (rest : List Entry) : Entry × Nat :=
  scan (head, 0) (head :: rest).zipIdx

/-- `add_to_cache`.  `malloc` does not fail; an empty list with a full count cannot be. -/
def addToCache (call : Call) (st : CacheState) : CacheState :=
  if st.count ≥ MAX_PING_CACHE_ENTRIES then
    match st.cache with
    | [] => st
    | head :: rest =>
      { st with
        cache := st.cache.set (victim head rest).2 ⟨call.data, call.now⟩
        destroyed := if call.callback then st.destroyed ++ [call.data] else st.destroyed }
  else { st with cache := ⟨call.data, call.now⟩ :: st.cache, count := st.count + 1 }

def inCache (data : Nat) (st : CacheState) : Bool := st.cache.any (·.data == data)

def after (calls : List Call) : CacheState :=
  calls.foldl (fun st call => addToCache call st) initial

/-! ## What a cache of recent entries is -/

def Oldest (e : Entry) (st : CacheState) : Prop :=
  e ∈ st.cache ∧ ∀ p ∈ st.cache, millis e.tv ≤ millis p.tv

/-- The call puts its entry in the place of `e`, and applies its callback to the data of `e`. -/
structure Replaces (e : Entry) (call : Call) (st : CacheState) : Prop where
  place : ∃ front back, st.cache = front ++ e :: back ∧
    (addToCache call st).cache = front ++ ⟨call.data, call.now⟩ :: back
  destroyed : call.callback = true → (addToCache call st).destroyed = st.destroyed ++ [e.data]

/-- The cache knows the data of the last calls, and each call on a full cache has replaced an
    oldest entry. -/
structure Lru (calls : List Call) : Prop where
  recent : ∀ data, inCache data (after calls) = true ↔
    data ∈ (calls.drop (calls.length - MAX_PING_CACHE_ENTRIES)).map Call.data
  evicts : ∀ before call later, calls = before ++ call :: later →
    (after before).cache.length = MAX_PING_CACHE_ENTRIES →
    ∃ e, Oldest e (after before) ∧ Replaces e call (after before)

/-- The calls are made one after the other, at different milliseconds. -/
def Increasing (calls : List Call) : Prop :=
  calls.Pairwise fun a b => millis a.now < millis b.now

/-! ## While there is room -/

def Call.entry (call : Call) : Entry := ⟨call.data, call.now⟩

theorem after_snoc (calls : List Call) (call : Call) :
    after (calls ++ [call]) = addToCache call (after calls) := by
  simp [after]

theorem after_room {calls : List Call} (room : calls.length ≤ MAX_PING_CACHE_ENTRIES) :
    after calls = ⟨(calls.map Call.entry).reverse, calls.length, []⟩ := by
  induction calls using List.reverseRecOn with
  | nil => rfl
  | append_singleton calls call ih =>
    rw [List.length_append, List.length_singleton] at room
    rw [after_snoc, ih (by omega), addToCache, if_neg (by dsimp only; omega)]
    simp [Call.entry]

/-! ## A full cache -/

/-- The scan stays at an entry that is newest. -/
theorem scan_newest {old : Entry × Nat} {rest : List (Entry × Nat)}
    (newest : ∀ p ∈ rest, millis p.1.tv ≤ millis old.1.tv) : scan old rest = old := by
  induction rest with
  | nil => rfl
  | cons p rest ih =>
    have first := newest p List.mem_cons_self
    rw [scan, if_neg (by omega)]
    exact ih fun q member => newest q (List.mem_cons_of_mem _ member)

theorem victim_newest {head : Entry} {rest : List Entry}
    (newest : ∀ p ∈ rest, millis p.tv ≤ millis head.tv) : (victim head rest).2 = 0 := by
  have places : ∀ p ∈ (head :: rest).zipIdx, millis p.1.tv ≤ millis head.tv := by
    intro p member
    have entry := List.fst_mem_of_mem_zipIdx member
    cases List.mem_cons.mp entry with
    | inl same => rw [same]
    | inr later => exact newest _ later
  rw [victim, scan_newest places]

/-- The newest entry is the head, and a call on the full cache takes its place. -/
theorem after_full {before : List Call} {last call : Call}
    (full : before.length + 1 = MAX_PING_CACHE_ENTRIES)
    (increasing : Increasing (before ++ [last])) :
    (after (before ++ [last, call])).cache =
      call.entry :: (before.map Call.entry).reverse := by
  have room : after (before ++ [last]) = _ := after_room (by simp [full])
  rw [List.map_append, List.reverse_append] at room
  have newest : ∀ p ∈ (before.map Call.entry).reverse, millis p.tv ≤ millis last.entry.tv := by
    intro p member
    obtain ⟨earlier, listed, rfl⟩ := List.mem_map.mp (List.mem_reverse.mp member)
    have sooner := (List.pairwise_append.mp increasing).2.2 earlier listed last (by simp)
    exact Int.le_of_lt sooner
  have split : before ++ [last, call] = (before ++ [last]) ++ [call] := by simp
  rw [split, after_snoc, room, addToCache, if_pos (by simp [full])]
  change List.set _ (victim last.entry (before.map Call.entry).reverse).2 _ = _
  rw [victim_newest newest]
  rfl

/-- An entry that is older than another one is not replaced. -/
theorem not_replaces {before : List Call} {last call : Call} {e : Entry}
    (full : before.length + 1 = MAX_PING_CACHE_ENTRIES)
    (increasing : Increasing (before ++ [last, call]))
    (oldest : Oldest e (after (before ++ [last]))) :
    ¬ Replaces e call (after (before ++ [last])) := by
  rintro ⟨⟨front, back, place, replaced⟩, -⟩
  have earlier : Increasing (before ++ [last]) :=
    List.Pairwise.sublist (List.Sublist.append_left (by simp) before) increasing
  have split : before ++ [last, call] = (before ++ [last]) ++ [call] := by simp
  rw [← after_snoc, ← split, after_full full earlier] at replaced
  have room : after (before ++ [last]) = _ := after_room (by simp [full])
  rw [List.map_append, List.reverse_append] at room
  rw [room] at place
  cases front with
  | nil =>
    obtain ⟨rfl, -⟩ := List.cons.inj place
    obtain ⟨first, rest, rfl⟩ : ∃ first rest, before = first :: rest := by
      cases before with
      | nil => cases full
      | cons first rest => exact ⟨first, rest, rfl⟩
    have older := oldest.2 first.entry (by rw [room]; simp)
    have sooner := (List.pairwise_cons.mp earlier).1 last (by simp)
    exact absurd sooner (by simpa [Call.entry] using older)
  | cons head front =>
    obtain ⟨same, -⟩ := List.cons.inj place
    obtain ⟨same', -⟩ := List.cons.inj replaced
    have equal : last.entry = call.entry := same.trans same'.symm
    have sooner : millis last.now < millis call.now := by
      have tail := (List.pairwise_append.mp increasing).2.1
      exact (List.pairwise_cons.mp tail).1 call (by simp)
    have times := congrArg (fun e => millis e.tv) equal
    change millis last.now = millis call.now at times
    omega

/-! ## When it is one -/

theorem Lru.length_le {calls : List Call} (increasing : Increasing calls) (lru : Lru calls) :
    calls.length ≤ MAX_PING_CACHE_ENTRIES := by
  by_contra long
  obtain ⟨full, more, rfl, size⟩ : ∃ full more, calls = full ++ more ∧
      full.length = MAX_PING_CACHE_ENTRIES :=
    ⟨_, _, (List.take_append_drop MAX_PING_CACHE_ENTRIES calls).symm, by simp; omega⟩
  obtain ⟨call, later, rfl⟩ : ∃ call later, more = call :: later := by
    cases more with
    | nil => simp at long; omega
    | cons call later => exact ⟨call, later, rfl⟩
  obtain ⟨before, last, rfl⟩ : ∃ before last, full = before ++ [last] := by
    cases full using List.reverseRecOn with
    | nil => cases size
    | append_singleton before last => exact ⟨before, last, rfl⟩
  have room := after_room (Nat.le_of_eq size)
  obtain ⟨e, oldest, replaces⟩ := lru.evicts _ call later rfl (by rw [room]; simpa using size)
  refine not_replaces (by simpa using size) ?_ oldest replaces
  exact List.Pairwise.sublist (by simp) increasing

theorem lru_of_length_le {calls : List Call} (room : calls.length ≤ MAX_PING_CACHE_ENTRIES) :
    Lru calls where
  recent data := by
    rw [after_room room, Nat.sub_eq_zero_of_le room, List.drop_zero]
    simp [inCache, Call.entry]
  evicts before call later split full := by
    have shorter := congrArg List.length split
    simp only [List.length_append, List.length_cons] at shorter
    rw [after_room (by omega)] at full
    simp at full
    omega

/-- The cache is a cache of recent entries as long as it has never been full. -/
theorem lru_iff {calls : List Call} (increasing : Increasing calls) :
    Lru calls ↔ calls.length ≤ MAX_PING_CACHE_ENTRIES :=
  ⟨Lru.length_le increasing, lru_of_length_le⟩

/-- Three calls. -/
theorem lru_three : Lru [⟨1, false, ⟨1, 0⟩⟩, ⟨2, false, ⟨2, 0⟩⟩, ⟨3, false, ⟨3, 0⟩⟩] :=
  (lru_iff (by unfold Increasing; decide)).mpr (by decide)

def everySecond (n : Nat) : List Call := (List.range n).map fun i => ⟨i, true, ⟨i, 0⟩⟩

theorem increasing_everySecond (n : Nat) : Increasing (everySecond n) := by
  refine List.pairwise_map.mpr (List.pairwise_lt_range.imp ?_)
  intro i j before
  simp [millis]
  omega

/-- With one call more than there is room for. -/
theorem not_lru_everySecond : Increasing (everySecond 129) ∧ ¬ Lru (everySecond 129) := by
  refine ⟨increasing_everySecond 129, fun lru => ?_⟩
  have short := lru.length_le (increasing_everySecond 129)
  simp [everySecond, MAX_PING_CACHE_ENTRIES] at short

end Cheops.Cache
