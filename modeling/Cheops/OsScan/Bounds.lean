import Cheops.Lib.Footprint
import Cheops.OsScan.Reply

/-! # OS scans: how far a reply is read (`gui-handlers.c`)

`handle_os_scan_reply` moves along the options by the lengths they claim, as often as the message
says, and looks for the NULs of their strings.  It compares none of this with the length of the
message; `handleOsScanReply_inside_iff` says of which messages it stays inside.
-/

namespace Cheops.OsScan

open Cheops.Lib Cheops.Event

/-! ## What is read -/

/-- What the turn of the loop for the option at `opt` reads. -/
def optionReads (m : Mem) (opt : Nat) : List (Nat × Nat) :=
  (opt, 4) ::
    (if be32 m opt = OS_SCAN_OPTION_OS then strings m 1 (opt + sizeofOsScanOptionOs)
    else if be32 m opt = OS_SCAN_OPTION_UPTIME then
      (opt + 8, 4) :: strings m 1 (opt + sizeofOsScanOptionUptime)
    else if be32 m opt = OS_SCAN_OPTION_PORT then
      (opt + 8, 28) :: strings m 2 (opt + sizeofOsScanOptionPort)
    else []) ++ [(opt + 4, 4)]

/-- What the loop over `j` options reads. -/
def optionsReads (m : Mem) : Nat → Nat → List (Nat × Nat)
  | 0, _ => []
  | j + 1, ptr => optionReads m ptr ++ optionsReads m j (ptr + be32 m (ptr + 4))

section

variable {π : Type} (getByIp : List UInt8 → Nat → Option π) (e : Mem)

def Found : Prop := (getByIp (slice e 8 8) (be32 e 4)).isSome

instance : Decidable (Found getByIp e) := inferInstanceAs (Decidable (_ = _))

def walked : Nat := if Found getByIp e then numOptions e else 0

/-- What `handle_os_scan_reply` reads of the event. -/
def handleOsScanReplyReads : List (Nat × Nat) :=
  (0, sizeofOsScanR) :: optionsReads e (walked getByIp e) sizeofOsScanR

end

def eventOf (h : Mem) : Mem := fun i => h (hdrHlen h + i)

/-- Of the message at `h`, `handle_os_scan_reply` reads the `h->len` bytes that there are, and it
    walks over no more options than that. -/
structure ReadsInside {π : Type} (getByIp : List UInt8 → Nat → Option π) (h : Mem) : Prop where
  inside : ∀ r ∈ handleOsScanReplyReads getByIp (eventOf h), hdrHlen h + (r.1 + r.2) ≤ hdrLen h
  bounded : walked getByIp (eventOf h) ≤ hdrLen h

/-! ## Whole messages -/

def fixedSize (type : Nat) : Nat :=
  if type = OS_SCAN_OPTION_OS then sizeofOsScanOptionOs
  else if type = OS_SCAN_OPTION_UPTIME then sizeofOsScanOptionUptime
  else if type = OS_SCAN_OPTION_PORT then sizeofOsScanOptionPort
  else 8

def stringCount (type : Nat) : Nat :=
  if type = OS_SCAN_OPTION_OS ∨ type = OS_SCAN_OPTION_UPTIME then 1
  else if type = OS_SCAN_OPTION_PORT then 2
  else 0

/-- The event of `size` bytes holds the fixed bytes of the option at `opt`, and behind them as many
    NULs as it has strings. -/
structure HoldsOption (e : Mem) (size opt : Nat) : Prop where
  fixed : opt + fixedSize (be32 e opt) ≤ size
  nuls : stringCount (be32 e opt) ≤
    (slice e (opt + fixedSize (be32 e opt)) (size - (opt + fixedSize (be32 e opt)))).count 0

/-- Where the option with number `i` begins if one begins at `ptr`. -/
def optionStart (e : Mem) (ptr : Nat) : Nat → Nat
  | 0 => ptr
  | i + 1 => optionStart e (ptr + be32 e (ptr + 4)) i

/-- The message holds the event, and if the host is on the page it holds every option, of which
    there are no more than it has bytes. -/
structure Whole {π : Type} (getByIp : List UInt8 → Nat → Option π) (h : Mem) : Prop where
  event : hdrHlen h + sizeofOsScanR ≤ hdrLen h
  count : Found getByIp (eventOf h) → numOptions (eventOf h) ≤ hdrLen h
  options : Found getByIp (eventOf h) → ∀ i < numOptions (eventOf h),
    HoldsOption (eventOf h) (hdrLen h - hdrHlen h) (optionStart (eventOf h) sizeofOsScanR i)

/-! ## Options -/

variable {m m' e h : Mem} {size opt ptr j : Nat}

theorem inside_optionReads_iff (small : size ≤ 2 ^ 64) :
    Inside size (optionReads m opt) ↔ HoldsOption m size opt := by
  have holds : HoldsOption m size opt ↔ opt + fixedSize (be32 m opt) ≤ size ∧
      Inside size (strings m (stringCount (be32 m opt)) (opt + fixedSize (be32 m opt))) := by
    rw [inside_strings_iff small]
    exact ⟨fun h => ⟨h.fixed, h.nuls⟩, fun h => ⟨h.1, h.2⟩⟩
  rw [holds]
  clear holds
  unfold optionReads fixedSize stringCount
  generalize be32 m opt = type
  by_cases os : type = OS_SCAN_OPTION_OS
  case pos =>
    subst os
    simp only [if_true, true_or, List.cons_append, inside_cons, inside_append, inside_nil,
      sizeofOsScanOptionOs]
    constructor
    · rintro ⟨-, string, length, -⟩
      exact ⟨length, string⟩
    · rintro ⟨fixed, string⟩
      exact ⟨by omega, string, fixed, trivial⟩
  by_cases uptime : type = OS_SCAN_OPTION_UPTIME
  case pos =>
    subst uptime
    simp only [os, if_true, if_false, or_true, List.cons_append, inside_cons, inside_append,
      inside_nil, sizeofOsScanOptionUptime]
    constructor
    · rintro ⟨-, seconds, string, -⟩
      exact ⟨seconds, string⟩
    · rintro ⟨fixed, string⟩
      exact ⟨by omega, fixed, string, by omega, trivial⟩
  by_cases port : type = OS_SCAN_OPTION_PORT
  case pos =>
    subst port
    simp only [os, uptime, if_true, if_false, or_self, List.cons_append, inside_cons,
      inside_append, inside_nil, sizeofOsScanOptionPort]
    constructor
    · rintro ⟨-, words, strings, -⟩
      exact ⟨words, strings⟩
    · rintro ⟨fixed, strings⟩
      exact ⟨by omega, fixed, strings, by omega, trivial⟩
  case neg =>
    simp only [os, uptime, port, if_false, or_self, List.cons_append, List.nil_append, inside_cons,
      inside_nil]
    constructor
    · rintro ⟨-, length, -⟩
      exact ⟨length, inside_nil⟩
    · rintro ⟨length, -⟩
      exact ⟨by omega, length, trivial⟩

theorem inside_optionsReads_iff (small : size ≤ 2 ^ 64) :
    Inside size (optionsReads m j ptr) ↔
      ∀ i < j, HoldsOption m size (optionStart m ptr i) := by
  induction j generalizing ptr with
  | zero => exact iff_of_true inside_nil fun i none => absurd none (Nat.not_lt_zero i)
  | succ j ih =>
    rw [optionsReads, inside_append, inside_optionReads_iff small, ih, Nat.forall_lt_succ_left]
    rfl

/-! ## What the reads decide -/

theorem readPort_congr {opt : Nat} (words : slice m (opt + 8) 28 = slice m' (opt + 8) 28)
    (same : SameOn m m' (strings m 2 (opt + sizeofOsScanOptionPort))) :
    readPort m opt = readPort m' opt := by
  obtain ⟨name, rest⟩ := sameOn_cons.mp same
  obtain ⟨owner, -⟩ := sameOn_cons.mp rest
  have word (off : Nat) (low : 8 ≤ off) (high : off + 4 ≤ 36) :
      be32 m (opt + off) = be32 m' (opt + off) := by
    have part := be32_congr (slice_part (k := off - 8) (j := 4) words (by omega))
    rwa [show opt + 8 + (off - 8) = opt + off by omega] at part
  have length (n : Mem) (off : Nat) : (cstring n off).length = strlen n off := length_slice
  unfold readPort
  dsimp only
  rw [← cstring_congr name, length, ← cstring_congr owner]
  rw [word 8 (by decide) (by decide), word 12 (by decide) (by decide),
    word 16 (by decide) (by decide), word 20 (by decide) (by decide),
    word 24 (by decide) (by decide), word 28 (by decide) (by decide),
    word 32 (by decide) (by decide)]

theorem readOption_congr (probePorts : Bool) {w : Walk} (same : SameOn m m' (optionReads m w.ptr)) :
    readOption probePorts m w = readOption probePorts m' w ∧
      be32 m (w.ptr + 4) = be32 m' (w.ptr + 4) := by
  unfold optionReads at same
  obtain ⟨fields, length⟩ := sameOn_append.mp same
  obtain ⟨type, rest⟩ := sameOn_cons.mp fields
  refine ⟨?_, be32_congr (sameOn_cons.mp length).1⟩
  unfold readOption
  dsimp only
  rw [← be32_congr type]
  split at rest
  case isTrue os =>
    rw [if_pos os, if_pos os, cstring_congr (sameOn_cons.mp rest).1]
  case isFalse notOs =>
    rw [if_neg notOs, if_neg notOs]
    split at rest
    case isTrue uptime =>
      obtain ⟨seconds, string⟩ := sameOn_cons.mp rest
      obtain ⟨string, -⟩ := sameOn_cons.mp string
      rw [if_pos uptime, if_pos uptime, be32_congr seconds, cstring_congr string,
        strlen_congr string]
    case isFalse notUptime =>
      rw [if_neg notUptime, if_neg notUptime]
      split at rest
      case isTrue port =>
        obtain ⟨words, both⟩ := sameOn_cons.mp rest
        rw [if_pos port, if_pos port, readPort_congr words both]
      case isFalse unknown => rw [if_neg unknown, if_neg unknown]

theorem readOptions_congr (probePorts : Bool) {w : Walk}
    (same : SameOn m m' (optionsReads m j w.ptr)) :
    readOptions probePorts m j w = readOptions probePorts m' j w := by
  induction j generalizing w with
  | zero => rfl
  | succ j ih =>
    obtain ⟨first, rest⟩ := sameOn_append.mp same
    obtain ⟨option, length⟩ := readOption_congr probePorts first
    rw [readOptions, readOptions, ← option, ← length]
    exact ih rest

/-- `handle_os_scan_reply` uses no other byte than those. -/
theorem handleOsScanReply_congr {π : Type} (getByIp : List UInt8 → Nat → Option π)
    (probePorts : Bool) (same : SameOn m m' (handleOsScanReplyReads getByIp m)) :
    handleOsScanReply getByIp probePorts m = handleOsScanReply getByIp probePorts m' := by
  obtain ⟨header, options⟩ := sameOn_cons.mp same
  have word (k : Nat) (inside : k + 4 ≤ sizeofOsScanR) : be32 m k = be32 m' k := by
    have part := be32_congr (slice_part header inside)
    rwa [Nat.zero_add] at part
  have page : slice m 8 8 = slice m' 8 8 := by
    have part := slice_part (k := 8) (j := 8) header (by decide)
    rwa [Nat.zero_add] at part
  have count : numOptions m = numOptions m' := by
    rw [numOptions, numOptions, word 0 (by decide)]
  unfold handleOsScanReply
  rw [← page, ← word 4 (by decide), ← count]
  cases found : getByIp (slice m 8 8) (be32 m 4) with
  | none => rfl
  | some po =>
    rw [walked, if_pos (by rw [Found, found]; rfl)] at options
    rw [Option.map_some, Option.map_some, readOptions_congr probePorts options]

/-! ## What the reads reach -/

/-- Nothing but the message is read, and the options are no more than its bytes, exactly if it is
    whole. -/
theorem handleOsScanReply_inside_iff {π : Type} (getByIp : List UInt8 → Nat → Option π) (h : Mem) :
    ReadsInside getByIp h ↔ Whole getByIp h := by
  have small : hdrLen h - hdrHlen h ≤ 2 ^ 64 := by
    have bound : hdrLen h < 2 ^ 32 := be32_lt
    omega
  have reads : (∀ r ∈ handleOsScanReplyReads getByIp (eventOf h),
        hdrHlen h + (r.1 + r.2) ≤ hdrLen h) ↔
      hdrHlen h + sizeofOsScanR ≤ hdrLen h ∧
        Inside (hdrLen h - hdrHlen h)
          (optionsReads (eventOf h) (walked getByIp (eventOf h)) sizeofOsScanR) := by
    rw [handleOsScanReplyReads, List.forall_mem_cons, Nat.zero_add]
    apply and_congr_right
    intro event
    have shifted (k : Nat) : hdrHlen h + k ≤ hdrLen h ↔ k ≤ hdrLen h - hdrHlen h := by omega
    simp only [shifted]
    rfl
  by_cases found : Found getByIp (eventOf h)
  case pos =>
    have all : walked getByIp (eventOf h) = numOptions (eventOf h) := if_pos found
    constructor
    · rintro ⟨inside, bounded⟩
      obtain ⟨event, options⟩ := reads.mp inside
      rw [all, inside_optionsReads_iff small] at options
      exact ⟨event, fun _ => all ▸ bounded, fun _ => options⟩
    · intro whole
      refine ⟨reads.mpr ⟨whole.event, ?_⟩, all ▸ whole.count found⟩
      rw [all, inside_optionsReads_iff small]
      exact whole.options found
  case neg =>
    have none : walked getByIp (eventOf h) = 0 := if_neg found
    constructor
    · intro inside
      exact ⟨(reads.mp inside.inside).1, fun any => absurd any found, fun any => absurd any found⟩
    · intro whole
      refine ⟨reads.mpr ⟨whole.event, ?_⟩, none ▸ Nat.zero_le _⟩
      rw [none]
      exact inside_nil


def replyMessage (count : Nat) (options : List UInt8) : Mem :=
  store (fun _ => 0) 0 (eventHdr (28 + options.length) sizeofEventHdr REPLY_OS_SCAN 0 ++
    (toBe 4 count ++ toBe 4 9 ++ toBe 8 5) ++ options)

/-- An option is read behind a message that has none, and an option of no length is walked over a
    thousand times. -/
theorem handleOsScanReply_outside :
    (hdrHlen (replyMessage 1 []) ≤ hdrLen (replyMessage 1 []) ∧
      ¬ ReadsInside (fun _ _ => some ()) (replyMessage 1 [])) ∧
    (hdrHlen (replyMessage 1000 (toBe 8 0)) ≤ hdrLen (replyMessage 1000 (toBe 8 0)) ∧
      ¬ ReadsInside (fun _ _ => some ()) (replyMessage 1000 (toBe 8 0))) := by
  refine ⟨⟨by decide +kernel, fun reads => ?_⟩, ⟨by decide +kernel, fun reads => ?_⟩⟩
  · exact absurd reads.inside (by decide +kernel)
  · exact absurd reads.bounded (by decide +kernel)

end Cheops.OsScan
