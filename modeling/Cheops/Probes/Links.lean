import Cheops.Probes.Basic

/-! # How probes, poll entries and timers hang together

`LinkedAt` ties a record to the entries of the poll table and to the timers that have it as their
data: they exist only while it is allocated, and it knows them by their ids.  It is stated for any
table, queue and heap.  A step of a probe changes what there is for one record only, so that it
keeps the links of all the others (`Linked.update`).
-/

namespace Cheops.Probes

open Cheops.Io Cheops.Lib Cheops.Scheduler

abbrev Entries := List (Registration IoCallback)
abbrev Timers := List (Int × SchedCallback × Nat)

def ProbeData.ioId (pd : ProbeData) : IoCallback → Option Nat
  | .sendCb => pd.soid
  | .recieveCb => pd.siid
  | .other => none

/-- The entries `T` and the timers `S` fit what is at address `a`. -/
structure LinkedAt (T : Entries) (S : Timers) (a : Nat) (record : Option ProbeData) : Prop where
  entries : ∀ r ∈ T, r.callback ≠ .other → r.data = a →
    ∃ pd, record = some pd ∧ pd.ioId r.callback = some r.id
  known : ∀ pd, record = some pd → ∀ callback p, pd.ioId callback = some p →
    ∃ r ∈ T, r.id = p ∧ r.callback = callback ∧ r.data = a
  timers : ∀ t ∈ S, t.2 = (.timeoutCb, a) → ∃ pd, record = some pd ∧ pd.tid = t.1
  tid : ∀ pd, record = some pd → 0 ≤ pd.tid → (pd.tid, .timeoutCb, a) ∈ S
  sent : ∀ pd, record = some pd → pd.flags &&& PROBE_DATA_FLAGS_SEND ≠ 0 → pd.soid = none

def Linked (T : Entries) (S : Timers) (heap : Nat → Option ProbeData) : Prop :=
  ∀ a, LinkedAt T S a (heap a)

structure Distinct (T : Entries) (S : Timers) : Prop where
  entries : ∀ r ∈ T, ∀ s ∈ T, r.id = s.id → r = s
  timers : ∀ t ∈ S, ∀ u ∈ S, t.1 = u.1 → t = u
  nodup : S.Nodup
  positive : ∀ t ∈ S, 0 < t.1

section Linked

variable {T T' : Entries} {S S' : Timers} {heap : Nat → Option ProbeData} {a : Nat}
  {pd : ProbeData} {r : Registration IoCallback}

/-- Only the entries and timers of the record matter. -/
theorem LinkedAt.congr {record : Option ProbeData} (h : LinkedAt T S a record)
    (hT : ∀ r, r.callback ≠ .other → r.data = a → (r ∈ T' ↔ r ∈ T))
    (hS : ∀ i, (i, .timeoutCb, a) ∈ S' ↔ (i, .timeoutCb, a) ∈ S) : LinkedAt T' S' a record where
  entries r hr hcb hdata := h.entries r ((hT r hcb hdata).mp hr) hcb hdata
  known pd hpd callback p hp := by
    obtain ⟨r, hr, hid, hcb, hdata⟩ := h.known pd hpd callback p hp
    have hother : r.callback ≠ .other := fun heq => by
      rw [← hcb, heq] at hp
      cases hp
    exact ⟨r, (hT r hother hdata).mpr hr, hid, hcb, hdata⟩
  timers t ht hcall := by
    obtain ⟨i, call⟩ := t
    obtain rfl : call = _ := hcall
    exact h.timers _ ((hS i).mp ht) rfl
  tid pd hpd htid := (hS _).mpr (h.tid pd hpd htid)
  sent := h.sent

theorem Linked.congr (h : Linked T S heap) (hT : ∀ r, r.callback ≠ .other → (r ∈ T' ↔ r ∈ T))
    (hS : ∀ i b, (i, .timeoutCb, b) ∈ S' ↔ (i, .timeoutCb, b) ∈ S) : Linked T' S' heap :=
  fun b => (h b).congr (fun r hcb _ => hT r hcb) (fun i => hS i b)

/-- A step that concerns the record at `a`. -/
theorem Linked.update (h : Linked T S heap)
    (hT : ∀ r, r.callback ≠ .other → r.data ≠ a → (r ∈ T' ↔ r ∈ T))
    (hS : ∀ i b, b ≠ a → ((i, .timeoutCb, b) ∈ S' ↔ (i, .timeoutCb, b) ∈ S))
    {record : Option ProbeData} (hself : LinkedAt T' S' a record) :
    Linked T' S' (Function.update heap a record) := by
  intro b
  by_cases hb : b = a
  · subst hb
    rwa [Function.update_self]
  · rw [Function.update_of_ne hb]
    exact (h b).congr (fun r hcb hdata => hT r hcb (hdata ▸ hb)) fun i => hS i b hb

/-- An entry of a probe, with its record. -/
theorem Linked.entry (h : Linked T S heap) (hr : r ∈ T) (hcb : r.callback ≠ .other) :
    ∃ pd, heap r.data = some pd ∧ pd.ioId r.callback = some r.id :=
  (h r.data).entries r hr hcb rfl

/-- A probe has one entry for a callback. -/
theorem Linked.entry_unique (h : Linked T S heap) (d : Distinct T S)
    {s : Registration IoCallback} (hr : r ∈ T) (hs : s ∈ T) (hcb : r.callback ≠ .other)
    (hcallback : s.callback = r.callback) (hdata : s.data = r.data) : s = r := by
  obtain ⟨pd, hpd, hid⟩ := h.entry hr hcb
  obtain ⟨pd', hpd', hid'⟩ := h.entry hs (by rwa [hcallback])
  rw [hdata, hpd] at hpd'
  obtain rfl := Option.some.inj hpd'
  rw [hcallback, hid] at hid'
  exact d.entries s hs r hr (Option.some.inj hid').symm

/-- A probe has one timer, under its `tid`. -/
theorem Linked.timer_iff (h : Linked T S heap) (d : Distinct T S) (hpd : heap a = some pd)
    {i : Int} : (i, .timeoutCb, a) ∈ S ↔ 0 ≤ pd.tid ∧ i = pd.tid := by
  constructor
  · intro ht
    obtain ⟨pd', hpd', htid⟩ := (h a).timers _ ht rfl
    rw [hpd] at hpd'
    obtain rfl := Option.some.inj hpd'
    have htid : pd.tid = i := htid
    have hpos : 0 < i := d.positive _ ht
    exact ⟨by omega, htid.symm⟩
  · rintro ⟨htid, rfl⟩
    exact (h a).tid pd hpd htid

/-- The timer of a probe has been taken out of the queue. -/
theorem Linked.timer_gone (h : Linked T S heap) (d : Distinct T S) (hpd : heap a = some pd)
    (hperm : S.Perm ((pd.tid, .timeoutCb, a) :: S')) (i : Int) (b : Nat) :
    (i, .timeoutCb, b) ∈ S' ↔ (i, .timeoutCb, b) ∈ S ∧ b ≠ a := by
  rw [mem_iff_of_perm_cons hperm.symm d.nodup]
  refine and_congr_right fun hb => not_congr ⟨fun heq => congrArg (·.2.2) heq, ?_⟩
  rintro rfl
  rw [((h.timer_iff d hpd).mp hb).2]

/-- A probe's entries and timer go with its record. -/
theorem Linked.free (h : Linked T S heap)
    (hT : ∀ r, r.callback ≠ .other → (r ∈ T' ↔ r ∈ T ∧ r.data ≠ a))
    (hS : ∀ i b, (i, .timeoutCb, b) ∈ S' ↔ (i, .timeoutCb, b) ∈ S ∧ b ≠ a) :
    Linked T' S' (Function.update heap a none) := by
  refine h.update (fun r hcb hdata => (hT r hcb).trans (and_iff_left hdata))
    (fun i b hb => (hS i b).trans (and_iff_left hb)) ?_
  exact {
    entries := fun r hr hcb hdata => absurd hdata ((hT r hcb).mp hr).2
    known := nofun
    timers := fun ⟨i, call⟩ ht hcall => by
      obtain rfl : call = _ := hcall
      exact absurd rfl ((hS i a).mp ht).2
    tid := nofun
    sent := nofun }

/-- The entry `r` for sending is done with. -/
theorem Linked.send (h : Linked T S heap) (d : Distinct T S) (hr : r ∈ T)
    (hcb : r.callback = .sendCb) (hpd : heap r.data = some pd) (flags : Nat)
    (hT : ∀ s, s.callback ≠ .other → (s ∈ T' ↔ s ∈ T ∧ s ≠ r)) :
    Linked T' S (Function.update heap r.data (some { pd with flags, soid := none })) := by
  refine h.update (fun s hscb hdata => (hT s hscb).trans (and_iff_left ?_)) (fun i b _ => .rfl) ?_
  · exact fun heq => hdata (by rw [heq])
  have hself := h r.data
  rw [hpd] at hself
  constructor
  case entries =>
    intro s hs hscb hdata
    obtain ⟨hs, hne⟩ := (hT s hscb).mp hs
    obtain ⟨pd', hpd', hid⟩ := hself.entries s hs hscb hdata
    obtain rfl := Option.some.inj hpd'
    refine ⟨_, rfl, ?_⟩
    cases hcallback : s.callback with
    | sendCb =>
      exact absurd (h.entry_unique d hr hs (by simp [hcb]) (by rw [hcallback, hcb]) hdata) hne
    | recieveCb => rwa [hcallback] at hid
    | other => exact absurd hcallback hscb
  case known =>
    intro pd' hpd' callback p hp
    obtain rfl := Option.some.inj hpd'
    cases callback with
    | sendCb => cases hp
    | recieveCb =>
      obtain ⟨s, hs, hid, hscb, hdata⟩ := hself.known pd rfl .recieveCb p hp
      refine ⟨s, (hT s (by simp [hscb])).mpr ⟨hs, fun heq => ?_⟩, hid, hscb, hdata⟩
      rw [heq, hcb] at hscb
      cases hscb
    | other => cases hp
  case timers =>
    intro t ht hcall
    obtain ⟨pd', hpd', htid⟩ := hself.timers t ht hcall
    obtain rfl := Option.some.inj hpd'
    exact ⟨_, rfl, htid⟩
  case tid =>
    intro pd' hpd' htid
    obtain rfl := Option.some.inj hpd'
    exact hself.tid pd rfl htid
  case sent =>
    intro pd' hpd' _
    obtain rfl := Option.some.inj hpd'
    rfl

end Linked

end Cheops.Probes
