import Cheops.Discover.Basic

/-! # The order in which `ping_send` works

The pairs of a request are its rounds and addresses in lexicographic order.  The loop of
`ping_send` processes them one after the other (`pingLoop_inv`), and where it stops
depends only on which addresses it sends to (`pingLoop_stops`).
-/

namespace Cheops.Discover

open Cheops.Lib Cheops.Scheduler

/-! ## Pairs of rounds and addresses -/

def PingQ.first (pp : PingQ) : Nat := ntohl pp.start
def PingQ.last (pp : PingQ) : Nat := ntohl pp.end_

def roundPairs (first last k : Nat) : List (Nat × Nat) :=
  (List.range (last + 1 - first)).map fun i => (k, first + i)

def pairs (pingRetries first last : Nat) : List (Nat × Nat) :=
  (List.range (pingRetries + 1)).flatMap (roundPairs first last)

theorem mem_pairs {pingRetries first last k a : Nat} :
    (k, a) ∈ pairs pingRetries first last ↔ k ≤ pingRetries ∧ first ≤ a ∧ a ≤ last := by
  simp only [pairs, roundPairs, List.mem_flatMap, List.mem_map, List.mem_range, Prod.mk.injEq]
  constructor
  · rintro ⟨_, hk, i, hi, rfl, rfl⟩
    omega
  · rintro ⟨hk, hlow, hhigh⟩
    exact ⟨k, by omega, a - first, by omega, rfl, by omega⟩

/-- The pairs are in lexicographic order, so each is there once. -/
theorem pairs_lex (pingRetries first last : Nat) :
    (pairs pingRetries first last).Pairwise (Prod.Lex (· < ·) (· < ·)) := by
  refine List.pairwise_flatMap.mpr ⟨fun k _ => ?_, ?_⟩
  · refine List.pairwise_map.mpr (List.pairwise_lt_range.imp fun hlt => ?_)
    exact .right _ (Nat.add_lt_add_left hlt first)
  · refine List.pairwise_lt_range.imp fun hlt x hx y hy => ?_
    obtain ⟨_, _, rfl⟩ := List.mem_map.mp hx
    obtain ⟨_, _, rfl⟩ := List.mem_map.mp hy
    exact .left _ _ hlt

def PingQ.before (pp : PingQ) : List (Nat × Nat) :=
  (List.range pp.retry).flatMap (roundPairs pp.first pp.last) ++
    (List.range (pp.current - pp.first)).map fun i => (pp.retry, pp.first + i)

def Processed.pair (x : Processed) : Nat × Nat := (x.round, x.address)

theorem first_le (pp : PingQ) : pp.first ≤ pp.current := pp.start_le

theorem le_last (pp : PingQ) : pp.current ≤ pp.last := pp.le_end

/-- After the last address comes the first one again, in the next round. -/
theorem advance_last {pp : PingQ} (cached : Nat → Bool) (h : pp.current = pp.last) :
    (pp.advance cached).current = pp.first ∧ (pp.advance cached).retry = pp.retry + 1 := by
  unfold PingQ.advance
  dsimp only
  rw [dif_pos (show pp.current = ntohl pp.end_ from h)]
  exact ⟨rfl, rfl⟩

theorem advance_next {pp : PingQ} (cached : Nat → Bool) (h : pp.current ≠ pp.last) :
    (pp.advance cached).current = pp.current + 1 ∧ (pp.advance cached).retry = pp.retry := by
  unfold PingQ.advance
  dsimp only
  rw [dif_neg (show ¬ pp.current = ntohl pp.end_ from h)]
  exact ⟨rfl, rfl⟩

theorem advance_first (cached : Nat → Bool) (pp : PingQ) :
    (pp.advance cached).first = pp.first ∧ (pp.advance cached).last = pp.last := by
  unfold PingQ.advance
  dsimp only
  split <;> exact ⟨rfl, rfl⟩

theorem advance_before (cached : Nat → Bool) (pp : PingQ) :
    (pp.advance cached).before = pp.before ++ [(pp.retry, pp.current)] := by
  have hlow := first_le pp
  have hcurrent : pp.first + (pp.current - pp.first) = pp.current := by omega
  obtain ⟨hfirst, hlast⟩ := advance_first cached pp
  rw [PingQ.before, PingQ.before, hfirst, hlast]
  by_cases hend : pp.current = pp.last
  · obtain ⟨hnext, hretry⟩ := advance_last cached hend
    have hround : pp.last + 1 - pp.first = (pp.current - pp.first) + 1 := by omega
    rw [hnext, hretry, List.range_succ, List.flatMap_append, List.append_assoc]
    simp [roundPairs, hround, List.range_succ, hcurrent]
  · obtain ⟨hnext, hretry⟩ := advance_next cached hend
    have hround : pp.current + 1 - pp.first = (pp.current - pp.first) + 1 := by omega
    rw [hnext, hretry, hround, List.range_succ, List.append_assoc]
    simp [hcurrent]

/-- What `ping_send` has processed is a beginning of the pairs. -/
theorem before_beginning {pingRetries : Nat} {pp : PingQ}
    (h : pp.retry ≤ pingRetries ∨ pp.retry = pingRetries + 1 ∧ pp.current = pp.first) :
    pp.before <+: pairs pingRetries pp.first pp.last := by
  have hhigh := le_last pp
  rcases h with hle | ⟨hretry, hcurrent⟩
  · obtain ⟨k, rfl⟩ := Nat.exists_eq_add_of_le hle
    have hsplit : (List.range (pp.retry + k + 1)).flatMap (roundPairs pp.first pp.last) =
        (List.range pp.retry).flatMap (roundPairs pp.first pp.last) ++
          (roundPairs pp.first pp.last pp.retry ++
            (List.range k).flatMap fun i => roundPairs pp.first pp.last (pp.retry + (i + 1))) := by
      rw [show pp.retry + k + 1 = pp.retry + (k + 1) by omega, List.range_add,
        List.flatMap_append, List.range_succ_eq_map]
      simp [List.flatMap_map, Function.comp_def]
    have hround : (List.range (pp.current - pp.first)).map (fun i => (pp.retry, pp.first + i)) <+:
        roundPairs pp.first pp.last pp.retry := by
      refine List.IsPrefix.map _ ?_
      obtain ⟨m, hm⟩ := Nat.exists_eq_add_of_le
        (show pp.current - pp.first ≤ pp.last + 1 - pp.first by omega)
      rw [hm, List.range_add]
      exact List.prefix_append _ _
    rw [PingQ.before, pairs, hsplit]
    exact (List.prefix_append_right_inj _).mpr (hround.trans (List.prefix_append _ _))
  · simp [PingQ.before, pairs, hretry, hcurrent]

theorem before_expired {pingRetries : Nat} {pp : PingQ} (hretry : pp.retry = pingRetries + 1)
    (hcurrent : pp.current = pp.first) : pp.before = pairs pingRetries pp.first pp.last := by
  simp [PingQ.before, pairs, hretry, hcurrent]

/-! ## Treatment -/

/-- An echo is sent if the flags force it or the address is not cached, unless it is a classful
    network or broadcast address. -/
def echoes (flags : Nat) (cached : Bool) (address : Nat) : Bool :=
  (flags &&& FLAG_FORCE != 0 || !cached) && !classfulBroadcast (ntohl address)

/-- The pair has been treated as it should be: an echo as `echoes` says, and an answer from the
    cache in round 0 only. -/
structure Processed.Right (flags : Nat) (x : Processed) : Prop where
  echo : x.treatment = .echo ↔ echoes flags x.cached x.address = true
  reply : x.treatment = .reply ↔ flags &&& FLAG_FORCE = 0 ∧ x.cached = true ∧ x.round = 0

theorem sends_eq (cached : Nat → Bool) (pp : PingQ) :
    pp.sends cached = echoes pp.flags (cached (ntohl pp.current)) pp.current := rfl

theorem treatment_right (cached : Nat → Bool) (pp : PingQ) :
    Processed.Right pp.flags
      ⟨pp.retry, pp.current, cached (ntohl pp.current), pp.treatment cached⟩ := by
  have htreatment : pp.treatment cached =
      if pp.mustPing cached then
        if classfulBroadcast (ntohl pp.current) then .nothing else .echo
      else if pp.retry = 0 then .reply else .nothing := rfl
  have hmust : pp.mustPing cached = (pp.flags &&& FLAG_FORCE != 0 || !cached (ntohl pp.current)) :=
    rfl
  rw [htreatment, hmust]
  cases cached (ntohl pp.current) with
  | false =>
    cases hb : classfulBroadcast (ntohl pp.current) <;> exact ⟨by simp [echoes, hb], by simp⟩
  | true =>
    by_cases hforce : pp.flags &&& FLAG_FORCE = 0
    · by_cases hretry : pp.retry = 0 <;>
      exact ⟨by simp [echoes, hforce, hretry], by simp [hforce, hretry]⟩
    · cases hb : classfulBroadcast (ntohl pp.current) <;>
      exact ⟨by simp [echoes, hforce, hb], by simp [hforce]⟩

/-! ## The loop -/

/-- What holds of a request between two runs of `ping_send`. -/
structure PingQ.Inv (pingRetries : Nat) (pp : PingQ) : Prop where
  processed : pp.log.map Processed.pair = pp.before
  right : ∀ x ∈ pp.log, x.Right pp.flags
  expired : pingRetries < pp.retry → pp.retry = pingRetries + 1 ∧ pp.current = pp.first
  single : pp.first = pp.last → pp.time = 0
  time : pp.time < 2 ^ 32

/-- `pp'` is the same request as `pp`, with nothing processed taken back. -/
structure PingQ.Continues (pp pp' : PingQ) : Prop where
  addr : pp'.addr = pp.addr
  start : pp'.start = pp.start
  end_ : pp'.end_ = pp.end_
  flags : pp'.flags = pp.flags
  time : pp'.time = pp.time
  runs : pp'.runs = pp.runs
  log : pp.log.length ≤ pp'.log.length

theorem PingQ.Continues.refl (pp : PingQ) : pp.Continues pp :=
  ⟨rfl, rfl, rfl, rfl, rfl, rfl, Nat.le_refl _⟩

theorem PingQ.Continues.trans {pp pp' pp'' : PingQ} (h : pp.Continues pp')
    (h' : pp'.Continues pp'') : pp.Continues pp'' :=
  ⟨h'.addr.trans h.addr, h'.start.trans h.start, h'.end_.trans h.end_, h'.flags.trans h.flags,
    h'.time.trans h.time, h'.runs.trans h.runs, Nat.le_trans h.log h'.log⟩

theorem advance_continues (cached : Nat → Bool) (pp : PingQ) :
    pp.Continues (pp.advance cached) ∧ pp.log.length < (pp.advance cached).log.length := by
  unfold PingQ.advance
  dsimp only
  split
  all_goals exact ⟨⟨rfl, rfl, rfl, rfl, rfl, rfl, by simp⟩, by simp⟩

theorem advance_inv {pingRetries : Nat} {cached : Nat → Bool} {pp : PingQ}
    (h : pp.Inv pingRetries) (hretry : pp.retry ≤ pingRetries) :
    (pp.advance cached).Inv pingRetries := by
  have hlog : (pp.advance cached).log =
      pp.log ++ [⟨pp.retry, pp.current, cached (ntohl pp.current), pp.treatment cached⟩] := by
    unfold PingQ.advance
    dsimp only
    split <;> rfl
  obtain ⟨hc, -⟩ := advance_continues cached pp
  constructor
  case processed =>
    rw [hlog, advance_before, List.map_append, h.processed]
    rfl
  case right =>
    rw [hlog, hc.flags]
    intro x hx
    rcases List.mem_append.mp hx with hx | hx
    · exact h.right x hx
    · rw [List.mem_singleton.mp hx]
      exact treatment_right cached pp
  case expired =>
    intro hlt
    by_cases hend : pp.current = pp.last
    · obtain ⟨hnext, hretry'⟩ := advance_last cached hend
      exact ⟨by omega, by rw [hnext, (advance_first cached pp).1]⟩
    · have := (advance_next cached hend).2
      omega
  case single =>
    intro heq
    rw [hc.time]
    refine h.single ?_
    simpa only [PingQ.first, PingQ.last, hc.start, hc.end_] using heq
  case time => exact hc.time ▸ h.time

/-- The loop keeps the invariant; it returns early only when the retries have expired, and
    otherwise it has processed something. -/
theorem pingLoop_inv {pingRetries : Nat} (cached : Nat → Bool) {pp : PingQ}
    (h : pp.Inv pingRetries) :
    (pingLoop pingRetries cached pp).2.Inv pingRetries ∧
    pp.Continues (pingLoop pingRetries cached pp).2 ∧
    ((pingLoop pingRetries cached pp).1 = true →
      (pingLoop pingRetries cached pp).2.retry = pingRetries + 1) ∧
    ((pingLoop pingRetries cached pp).1 = false →
      pp.log.length < (pingLoop pingRetries cached pp).2.log.length) := by
  fun_induction pingLoop pingRetries cached pp with
  | case1 pp hexpired => exact ⟨h, .refl pp, fun _ => (h.expired hexpired).1, nofun⟩
  | case2 pp hretry hsends =>
    obtain ⟨hc, hlen⟩ := advance_continues cached pp
    exact ⟨advance_inv h (by omega), hc, nofun, fun _ => hlen⟩
  | case3 pp hretry hsends ih =>
    obtain ⟨hc, hlen⟩ := advance_continues cached pp
    obtain ⟨hinv, hc', hremoved, hprocessed⟩ := ih (advance_inv h (by omega))
    exact ⟨hinv, hc.trans hc', hremoved, fun hkept => Nat.lt_trans hlen (hprocessed hkept)⟩

/-- The address in front of the last one is the next that `ping_send` sends to: in this round,
    or, from the last address on, in the next. -/
def PingQ.StopsBeforeEnd (pingRetries : Nat) (cached : Nat → Bool) (pp : PingQ) : Prop :=
  let sends (a : Nat) : Prop := echoes pp.flags (cached (ntohl a)) a = true
  pp.first < pp.last ∧ sends (pp.last - 1) ∧
    ((pp.current < pp.last ∧ pp.retry ≤ pingRetries ∧
        ∀ a, pp.current ≤ a → a + 1 < pp.last → ¬ sends a) ∨
     (pp.current = pp.last ∧ pp.retry < pingRetries ∧ ¬ sends pp.last ∧
       ∀ a, pp.first ≤ a → a + 1 < pp.last → ¬ sends a))

/-- After an address that nothing is sent to, the place to stop is what it was before. -/
theorem advance_stopsBeforeEnd {pingRetries : Nat} {cached : Nat → Bool} {pp : PingQ}
    (hskip : ¬ pp.sends cached = true) :
    (pp.advance cached).StopsBeforeEnd pingRetries cached ↔
      pp.StopsBeforeEnd pingRetries cached := by
  have hlow := first_le pp
  have hhigh := le_last pp
  obtain ⟨hc, -⟩ := advance_continues cached pp
  obtain ⟨hfirst, hlast⟩ := advance_first cached pp
  rw [sends_eq] at hskip
  simp only [PingQ.StopsBeforeEnd, hfirst, hlast, hc.flags]
  refine and_congr_right fun hne => and_congr_right fun hsend => ?_
  by_cases hend : pp.current = pp.last
  · obtain ⟨hnext, hretry'⟩ := advance_last cached hend
    rw [hnext, hretry']
    constructor
    · rintro (⟨-, hle, hall⟩ | ⟨heq, -⟩)
      · exact .inr ⟨hend, by omega, hend ▸ hskip, hall⟩
      · omega
    · rintro (⟨hlt, -⟩ | ⟨-, hlt, -, hall⟩)
      · omega
      · exact .inl ⟨hne, by omega, hall⟩
  · obtain ⟨hnext, hretry'⟩ := advance_next cached hend
    rw [hnext, hretry']
    -- the current address is not the one in front of the last, for nothing is sent to it
    have hfar : pp.current + 1 ≠ pp.last := by
      intro heq
      rw [show pp.last - 1 = pp.current by omega] at hsend
      exact hskip hsend
    constructor
    · rintro (⟨hlt, hle, hall⟩ | ⟨heq, -⟩)
      · refine .inl ⟨by omega, hle, fun a ha ha' => ?_⟩
        rcases Nat.eq_or_lt_of_le ha with rfl | hlt'
        · exact hskip
        · exact hall a hlt' ha'
      · exact absurd heq hfar
    · rintro (⟨hlt, hle, hall⟩ | ⟨heq, -⟩)
      · exact .inl ⟨by omega, hle, fun a ha ha' => hall a (by omega) ha'⟩
      · exact absurd heq hend

/-- Where the loop leaves off in front of the last address. -/
theorem pingLoop_stops {pingRetries : Nat} {cached : Nat → Bool} {pp : PingQ}
    (hne : pp.first < pp.last) :
    ((pingLoop pingRetries cached pp).1 = false ∧
      (pingLoop pingRetries cached pp).2.current = pp.last) ↔
    pp.StopsBeforeEnd pingRetries cached := by
  fun_induction pingLoop pingRetries cached pp with
  | case1 pp hexpired =>
    refine ⟨nofun, ?_⟩
    rintro ⟨-, -, ⟨-, hle, -⟩ | ⟨-, hlt, -⟩⟩ <;> omega
  | case2 pp hretry hsends =>
    have hlow := first_le pp
    have hhigh := le_last pp
    refine ⟨fun ⟨_, hend⟩ => ?_, ?_⟩
    · change (pp.advance cached).current = pp.last at hend
      by_cases hlast : pp.current = pp.last
      · have := (advance_last cached hlast).1
        omega
      · have hnext := (advance_next cached hlast).1
        refine ⟨hne, ?_, .inl ⟨by omega, by omega, fun a ha ha' => by omega⟩⟩
        rw [show pp.last - 1 = pp.current by omega]
        exact hsends
    · rintro ⟨-, -, ⟨hlt, -, hall⟩ | ⟨hend, -, hskip, -⟩⟩
      · refine ⟨rfl, ?_⟩
        change (pp.advance cached).current = pp.last
        rw [(advance_next cached (by omega)).1]
        have : ¬ pp.current + 1 < pp.last := fun h => hall _ (Nat.le_refl _) h hsends
        omega
      · rw [← hend] at hskip
        exact absurd hsends hskip
  | case3 pp hretry hsends ih =>
    obtain ⟨hfirst, hlast⟩ := advance_first cached pp
    rw [hfirst, hlast] at ih
    rw [ih hne, advance_stopsBeforeEnd hsends]

end Cheops.Discover
