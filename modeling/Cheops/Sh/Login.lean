import Cheops.Event.Isolation
import Cheops.Sh.Session

/-! # Logging in from the shell (`cheops-sh-guts.c`, `event.c`)

`send_auth_request` copies a name and a password into two fields of 35 bytes, without looking at
their lengths; the GUI has the same function.  `credentials_iff` says which of them the agent reads
as they have been typed.
-/

namespace Cheops.Sh

open Cheops.Lib Cheops.Event Cheops.Fields Cheops.Misc

/-! ## Events as they are sent -/

def SentEvent.bytes (o : ByteOrder) (e : SentEvent) : List UInt8 :=
  toBe 4 (sizeofEventHdr + e.event.length) ++ toBe 2 sizeofEventHdr ++ toBe 2 e.type ++
    o.bytes 4 e.flags.toNat ++ e.event

def authRequest (username password : List UInt8) (ee : Mem) : SentEvent :=
  ⟨EVENT_AUTH_REQUEST, 0, slice (credentials username password ee) 0 70⟩

def eventOf (h : Mem) : Mem := fun i => h (hdrHlen h + i)

variable {o : ByteOrder} {h ee : Mem} {e : SentEvent} {u p : List UInt8}

/-- What the agent finds of an event, whatever stands behind it. -/
theorem standsAt_bytes (stands : StandsAt h 0 (e.bytes o)) :
    hdrLen h = (sizeofEventHdr + e.event.length) % 2 ^ 32 ∧ hdrHlen h = sizeofEventHdr ∧
      hdrType h = e.type % 2 ^ 16 ∧ StandsAt (eventOf h) 0 e.event := by
  unfold SentEvent.bytes at stands
  simp only [standsAt_append, List.length_append, length_toBe, ByteOrder.length_bytes] at stands
  obtain ⟨⟨⟨⟨hlen, hhlen⟩, htype⟩, -⟩, hevent⟩ := stands
  have header : hdrHlen h = sizeofEventHdr := hhlen.be16
  refine ⟨hlen.be32, header, htype.be16, ?_⟩
  unfold eventOf
  rw [header]
  have behind : StandsAt h (sizeofEventHdr + 0) e.event := hevent
  exact behind.shift

/-- Any memory that begins with the event can be what the agent finds. -/
theorem exists_message (e : SentEvent) (o : ByteOrder) {m : Mem} (stands : StandsAt m 0 e.event) :
    ∃ h, StandsAt h 0 (e.bytes o) ∧ eventOf h = m := by
  let header := toBe 4 (sizeofEventHdr + e.event.length) ++ toBe 2 sizeofEventHdr ++
    toBe 2 e.type ++ o.bytes 4 e.flags.toNat
  have length : header.length = sizeofEventHdr := by simp [header, sizeofEventHdr]
  let h := store (fun i => m (i - sizeofEventHdr)) 0 header
  have behind (i : Nat) : h (sizeofEventHdr + i) = m i := by
    have far : header[sizeofEventHdr + i]? = none := List.getElem?_eq_none (by omega)
    simp [h, store, far]
  have message : StandsAt h 0 (e.bytes o) := by
    refine standsAt_append.mpr ⟨standsAt_store, ?_⟩
    change slice h (0 + header.length) e.event.length = e.event
    rw [Nat.zero_add, length, slice_eq_iff]
    intro i inside
    have here := slice_eq_iff.mp stands i inside
    rw [Nat.zero_add] at here
    rw [behind, here]
  refine ⟨h, message, funext fun i => ?_⟩
  rw [eventOf, (standsAt_bytes message).2.1, behind]

/-! ## Names and passwords -/

/-- They are read as they have been typed: the password fits, and the name fits or goes on with the
    password where its field ends. -/
def Fits (username password : List UInt8) : Prop :=
  password.length ≤ 34 ∧
    (username.length ≤ 34 ∨ 35 ≤ username.length ∧ username.drop 35 = password)

instance (username password : List UInt8) : Decidable (Fits username password) :=
  inferInstanceAs (Decidable (_ ∧ _))

/-- The password stands where it has been copied to. -/
theorem credentials_password (u p : List UInt8) (ee : Mem) :
    StandsAt (credentials u p ee) 35 (p ++ [0]) :=
  standsAt_store

/-- A name that fits is not touched by the password. -/
theorem credentials_username (short : u.length ≤ 34) :
    StandsAt (credentials u p ee) 0 (u ++ [0]) := by
  unfold StandsAt credentials
  rw [slice_store_of_disjoint (.inl (by simp; omega))]
  exact standsAt_store

/-- The end of a longer name is overwritten. -/
theorem credentials_overrun (p : List UInt8) (ee : Mem) (long : 35 ≤ u.length) :
    StandsAt (credentials u p ee) 0 (u.take 35 ++ p ++ [0]) := by
  rw [List.append_assoc, standsAt_append]
  have length : (u.take 35).length = 35 := List.length_take_of_le long
  refine ⟨?_, by rw [length]; exact standsAt_store⟩
  have whole : StandsAt (store ee 0 (u ++ [0])) 0
      (u.take 35 ++ (u.drop 35 ++ [0])) := by
    rw [← List.append_assoc, List.take_append_drop]
    exact standsAt_store
  unfold StandsAt credentials
  rw [length, slice_store_of_disjoint (.inl (by simp))]
  have front := (standsAt_append.mp whole).1
  unfold StandsAt at front
  rwa [length] at front

section Read

variable {m M : Mem} {off n : Nat} {bs : List UInt8}

/-- The event is the first 70 bytes of the buffer. -/
theorem agree_of_standsAt (event : StandsAt m 0 (slice M 0 n)) : Agree n m M := by
  unfold StandsAt at event
  rw [length_slice] at event
  intro i inside
  have same := List.map_inj_left.mp event i (List.mem_range.mpr (by omega))
  rwa [Nat.zero_add] at same

theorem standsAt_agree (agree : Agree n m M) (inside : off + bs.length ≤ n)
    (stands : StandsAt M off bs) : StandsAt m off bs :=
  (agree.slice (by omega)).trans stands

theorem fits_read (fits : Fits u p) (nul : 0 ∉ u ++ p)
    (agree : Agree 70 m (credentials u p ee)) : cstring m 0 = u ∧ cstring m 35 = p := by
  rw [List.mem_append, not_or] at nul
  obtain ⟨short, name⟩ := fits
  have password := standsAt_agree agree (by simp; omega) (credentials_password u p ee)
  refine ⟨?_, password.cstring nul.2 (by omega)⟩
  rcases name with fits | ⟨long, same⟩
  · exact (standsAt_agree agree (by simp; omega) (credentials_username fits)).cstring nul.1
      (by omega)
  · have overrun := standsAt_agree agree (by simp; omega)
      (credentials_overrun p ee long)
    rw [← same, List.take_append_drop] at overrun
    have length := congrArg List.length same
    rw [List.length_drop] at length
    exact overrun.cstring nul.1 (by omega)

def followed (M : Mem) (n : Nat) (b : UInt8) : Mem := fun i => if i < n then M i else b

theorem agree_followed (M : Mem) (n : Nat) (b : UInt8) : Agree n (followed M n b) M := by
  intro i inside
  exact if_pos (by omega)

/-- Where the password does not fit, the agent reads what stands behind the event with it. -/
theorem read_fits (ee : Mem) (nul : 0 ∉ u ++ p) (read : ∀ m, Agree 70 m (credentials u p ee) →
    cstring m 0 = u ∧ cstring m 35 = p) : Fits u p := by
  rw [List.mem_append, not_or] at nul
  have short : p.length ≤ 34 := by
    by_contra long
    have front : StandsAt (credentials u p ee) 35 (p.take 35 ++ (p.drop 35 ++ [0])) := by
      rw [← List.append_assoc, List.take_append_drop]
      exact credentials_password u p ee
    have length : (p.take 35).length = 35 := List.length_take_of_le (by omega)
    have free : 0 ∉ p.take 35 := fun member => nul.2 (List.mem_of_mem_take member)
    have stands (b : UInt8) : StandsAt (followed (credentials u p ee) 70 b) 35 (p.take 35) :=
      standsAt_agree (agree_followed _ _ _) (by omega) (standsAt_append.mp front).1
    -- a NUL behind the event ends the password there, and another byte does not
    have ended := ((stands 0).cstring_iff free (by omega)).mpr (by rw [length]; rfl)
    have whole : p.take 35 = p := ended.symm.trans (read _ (agree_followed _ _ 0)).2
    have goes_on := ((stands 1).cstring_iff free (by omega)).mp
      ((read _ (agree_followed _ _ 1)).2.trans whole.symm)
    rw [length] at goes_on
    have other : followed (credentials u p ee) 70 1 (35 + 35) = 1 := if_neg (by decide)
    rw [other] at goes_on
    exact absurd goes_on (by decide)
  refine ⟨short, ?_⟩
  by_contra other
  obtain ⟨long, differs⟩ : 35 ≤ u.length ∧ u.drop 35 ≠ p := by
    rw [not_or] at other
    exact ⟨by omega, fun same => other.2 ⟨by omega, same⟩⟩
  have length : (u.take 35).length = 35 := List.length_take_of_le long
  have free : 0 ∉ u.take 35 ++ p := by
    rw [List.mem_append, not_or]
    exact ⟨fun member => nul.1 (List.mem_of_mem_take member), nul.2⟩
  have overrun := credentials_overrun p ee long
  have name : u.take 35 ++ p = u :=
    (overrun.cstring free (by simp; omega)).symm.trans (read _ fun _ _ => rfl).1
  have parts : u.take 35 ++ p = u.take 35 ++ u.drop 35 := by rw [name, List.take_append_drop]
  exact differs (List.append_cancel_left parts).symm

end Read

/-- The agent reads the name and the password as they have been typed, whatever stands behind the
    event, exactly if they fit. -/
theorem credentials_iff (nul : 0 ∉ u ++ p) (o : ByteOrder) (ee : Mem) :
    (∀ h, StandsAt h 0 ((authRequest u p ee).bytes o) →
      cstring (username (eventOf h)) 0 = u ∧ cstring (password (eventOf h)) 0 = p) ↔
      Fits u p := by
  have second (m : Mem) : cstring (password m) 0 = cstring m 35 := cstring_shift 35 0
  constructor
  · intro read
    refine read_fits ee nul fun m agree => ?_
    have stands : StandsAt m 0 (authRequest u p ee).event := by
      unfold StandsAt authRequest
      rw [length_slice, agree.slice (by omega)]
    obtain ⟨h, message, event⟩ := exists_message (authRequest u p ee) o stands
    have both := read h message
    rwa [event, second] at both
  · intro fits h stands
    rw [second]
    exact fits_read fits nul (agree_of_standsAt (standsAt_bytes stands).2.2.2)

/-- A name of 38 bytes goes on with its password. -/
theorem credentials_iff_overrun :
    (∀ h, StandsAt h 0 ((authRequest (text "a-name-that-is-longer-than-35-bytes123") (text "123")
        (fun _ => 0)).bytes .little) →
      cstring (username (eventOf h)) 0 = text "a-name-that-is-longer-than-35-bytes123" ∧
        cstring (password (eventOf h)) 0 = text "123") ↔
      Fits (text "a-name-that-is-longer-than-35-bytes123") (text "123") :=
  credentials_iff (by decide) .little fun _ => 0

end Cheops.Sh
