import Cheops.Lib.Bytes
import Cheops.Lib.CString

/-! # Probes of ports (`probe.c`)

What a server says first is read into a static buffer, and each probe takes its own part of it.
`get_text` puts a NUL behind what it has read, also when the buffer is full.

`banners_meet_iff` says that everything else is right: the probes stay in the buffer and give the
right text exactly if the buffer is not filled.
-/

namespace Cheops.Gui.Banner

open Cheops.Lib

/-! ## Reading -/

/-- `sizeof(buf)`. -/
def sizeofBuf : Nat := 2048

/-- The bytes that `read` returns. -/
abbrev Received := { bs : List UInt8 // bs.length ≤ sizeofBuf }

/-- What becomes of `buf`, and the pointer into it that is returned; there is no result if a byte
    outside is accessed. -/
abbrev Result := Option (CharArray sizeofBuf × Option Nat)

/-- `get_text`; `res` is `none` if `read` fails. -/
def getText (res : Option Received) (buf : CharArray sizeofBuf) : Result :=
  match res with
  | none => some (buf, none)
  | some bs => do
    let buf ← (buf.fill bs.1 bs.2).write bs.1.length 0
    some (buf, some 0)

/-- `!strcasecmp(c, "No Answer") || !strcasecmp(c, "Inoperable")`. -/
def NoAnswer (s : List UInt8) : Prop :=
  SameIgnoringCase s (text "No Answer") ∨ SameIgnoringCase s (text "Inoperable")

instance (s : List UInt8) : Decidable (NoAnswer s) := inferInstanceAs (Decidable (_ ∨ _))

def space : UInt8 := 32
def newline : UInt8 := 10

/-- The loop of `strip_version`. -/
def stripVersionLoop (buf : CharArray sizeofBuf) : Nat → Option Nat → Option (Option Nat)
  | 0, c => some c
  | count + 1, none => stripVersionLoop buf count none
  | count + 1, some c => do
    let s ← buf.string c
    if NoAnswer s then some (some c)
    else
      match strchr s space with
      | some d => stripVersionLoop buf count (some (c + d + 1))
      | none => stripVersionLoop buf count (some c)

def stripVersion (count : Nat) (res : Option Received) (buf : CharArray sizeofBuf) : Result := do
  let (buf, c) ← getText res buf
  let c ← stripVersionLoop buf count c
  some (buf, c)

/-- The loop of `strip_newline`. -/
def stripNewlineLoop : Nat → Option Nat → CharArray sizeofBuf → Result
  | 0, c, buf => some (buf, c)
  | count + 1, none, buf => stripNewlineLoop count none buf
  | count + 1, some c, buf => do
    let s ← buf.string c
    if NoAnswer s then some (buf, some c)
    else
      match strchr s newline with
      | some d => do
        let buf ← buf.write (c + d) space
        stripNewlineLoop count (some c) buf
      | none => stripNewlineLoop count (some c) buf

def stripNewline (count : Nat) (res : Option Received) (buf : CharArray sizeofBuf) : Result := do
  let (buf, c) ← getText res buf
  stripNewlineLoop count c buf

/-- The string at `c` is cut at its first newline. -/
def cutLine (c : Nat) (buf : CharArray sizeofBuf) : Option (CharArray sizeofBuf) := do
  let s ← buf.string c
  match strchr s newline with
  | some d => buf.write (c + d) 0
  | none => some buf

def afterText (after : List UInt8) (res : Option Received) (buf : CharArray sizeofBuf) :
    Result := do
  let (buf, c) ← getText res buf
  match c with
  | none => some (buf, none)
  | some c => do
    let s ← buf.string c
    match strstr s after with
    | none => some (buf, none)
    | some i => do
      let buf ← cutLine (c + i) buf
      some (buf, some (c + i + after.length))

/-! ## The registered probes -/

inductive Recieve where
  | stripVersion (count : Nat)
  | afterText (after : List UInt8)
deriving DecidableEq, Repr

def Recieve.call : Recieve → Option Received → CharArray sizeofBuf → Result
  | .stripVersion count => Banner.stripVersion count
  | .afterText after => Banner.afterText after

/-- `struct probe`; `send` is the text for `send_text`. -/
structure Probe where
  port : UInt16
  send : Option (List UInt8)
  recieve : Recieve
deriving DecidableEq, Repr

def probesa : List Probe :=
  [⟨21, none, .stripVersion 1⟩, ⟨22, none, .stripVersion 0⟩, ⟨25, none, .stripVersion 1⟩,
   ⟨80, some (text "GET / HTTP/1.0\n\n"), .afterText (text "Server: ")⟩,
   ⟨110, none, .stripVersion 2⟩, ⟨119, none, .stripVersion 1⟩, ⟨143, none, .stripVersion 2⟩,
   ⟨444, none, .stripVersion 0⟩, ⟨5900, none, .stripVersion 0⟩, ⟨5901, none, .stripVersion 0⟩,
   ⟨5902, none, .stripVersion 0⟩, ⟨5903, none, .stripVersion 0⟩, ⟨5904, none, .stripVersion 0⟩,
   ⟨5905, none, .stripVersion 0⟩, ⟨5906, none, .stripVersion 0⟩, ⟨5907, none, .stripVersion 0⟩]

/-- `register_probe`: a probe of the same port goes. -/
def registerProbe (probes : List Probe) (p : Probe) : List Probe :=
  if 0 < p.port then probes.eraseP (·.port = p.port) ++ [p] else probes

def initProbes : List Probe := probesa.foldl registerProbe []

/-! ## What they are for -/

/-- The text that is received: what is in front of the first NUL. -/
def received (res : Option Received) : Option (List UInt8) :=
  res.map fun bs => bs.1.takeWhile (· ≠ 0)

def answer (buf : CharArray sizeofBuf) : Option Nat → Option (Option (List UInt8))
  | none => some none
  | some c => (buf.string c).map some

/-- Only bytes of the buffer are accessed, and the answer is as `P` says. -/
def Gives (result : Result) (P : Option (List UInt8) → Prop) : Prop :=
  ∃ buf c a, result = some (buf, c) ∧ answer buf c = some a ∧ P a

def spaced (words : List (List UInt8)) : List UInt8 := (words.map (· ++ [space])).flatten

/-- `rest` is the text without its first `count` words. -/
structure Strips (count : Nat) (text rest : List UInt8) (words : List (List UInt8)) : Prop where
  split : text = spaced words ++ rest
  plain : ∀ w ∈ words, space ∉ w
  few : words.length ≤ count
  answered : ∀ k < words.length, ¬ NoAnswer (spaced (words.drop k) ++ rest)
  stops : words.length = count ∨ space ∉ rest ∨ NoAnswer rest

/-- What `strip_version` is for. -/
def Stripped (count : Nat) : Option (List UInt8) → Option (List UInt8) → Prop
  | none, a => a = none
  | some text, a => ∃ rest words, a = some rest ∧ Strips count text rest words

/-- What `after_text` is for: the rest of the line behind the first occurrence. -/
def Follows (after : List UInt8) : Option (List UInt8) → Option (List UInt8) → Prop
  | none, a => a = none
  | some text, a => (¬ after <:+: text ∧ a = none) ∨
    ∃ front rest, text = front ++ after ++ rest ∧
      (∀ front' rest', text = front' ++ after ++ rest' → front.length ≤ front'.length) ∧
      a = some (rest.takeWhile (· ≠ newline))

def Recieve.Meant : Recieve → Option (List UInt8) → Option (List UInt8) → Prop
  | .stripVersion count => Stripped count
  | .afterText after => Follows after

/-- The functions and the registered probes do what they are for, whatever the buffer holds
    before. -/
structure Meets (res : Option Received) (buf : CharArray sizeofBuf) : Prop where
  getText : Gives (getText res buf) (· = received res)
  stripVersion : ∀ count, Gives (stripVersion count res buf) (Stripped count (received res))
  stripNewline : ∀ count, Gives (stripNewline count res buf) fun _ => True
  afterText : ∀ after, newline ∉ after →
    Gives (afterText after res buf) (Follows after (received res))
  registered : ∀ p ∈ initProbes,
    Gives (p.recieve.call res buf) (p.recieve.Meant (received res))

/-! ## Below the size of the buffer -/

section Room

variable {buf : CharArray sizeofBuf} {res : Option Received} {s t : List UInt8} {c count : Nat}
  {after : List UInt8}

/-- The buffer is not filled. -/
def Room (res : Option Received) : Prop := ∀ bs, res = some bs → bs.1.length < sizeofBuf

theorem getText_room (room : Room res) (buf : CharArray sizeofBuf) :
    (res = none ∧ getText res buf = some (buf, none)) ∨
      ∃ buf' s, received res = some s ∧ getText res buf = some (buf', some 0) ∧
        buf'.StringAt 0 s := by
  cases res with
  | none => exact .inl ⟨rfl, rfl⟩
  | some bs =>
    obtain ⟨buf', writes, at_⟩ := buf.stringAt_fill bs.2 (room bs rfl)
    refine .inr ⟨buf', _, rfl, ?_, at_⟩
    simp only [getText, writes, bind, Option.bind_some]

theorem getText_full {bs : Received} (full : bs.1.length = sizeofBuf) :
    getText (some bs) buf = none := by
  have outside : ¬ bs.1.length < sizeofBuf := by omega
  simp only [getText, CharArray.write, if_neg outside, bind, Option.bind_none]

theorem answer_stringAt (at_ : buf.StringAt c s) : answer buf (some c) = some (some s) := by
  rw [answer, at_.string, Option.map_some]

/-! ## `strip_version` -/

theorem stripVersionLoop_none : stripVersionLoop buf count none = some none := by
  induction count with
  | zero => rfl
  | succ count ih => rw [stripVersionLoop, ih]

theorem Strips.nil (stops : 0 = count ∨ space ∉ s ∨ NoAnswer s) : Strips count s s [] where
  split := rfl
  plain := fun w none => by cases none
  few := Nat.zero_le _
  answered := fun k none => by cases none
  stops := stops

/-- One more word is stripped. -/
theorem Strips.cons {w rest : List UInt8} {words : List (List UInt8)}
    (strips : Strips count t rest words) (plain : space ∉ w)
    (answered : ¬ NoAnswer (w ++ space :: t)) :
    Strips (count + 1) (w ++ space :: t) rest (w :: words) := by
  have whole : spaced (w :: words) ++ rest = w ++ space :: t := by
    rw [strips.split]
    simp [spaced]
  constructor
  case split => exact whole.symm
  case plain =>
    intro v member
    cases member with
    | head => exact plain
    | tail _ member => exact strips.plain v member
  case few => exact Nat.succ_le_succ strips.few
  case answered =>
    intro k bound
    cases k with
    | zero => rwa [List.drop_zero, whole]
    | succ k => exact strips.answered k (Nat.lt_of_succ_lt_succ bound)
  case stops =>
    rcases strips.stops with all | rest
    · exact .inl (by rw [List.length_cons, all])
    · exact .inr rest

theorem stripVersionLoop_strips (at_ : buf.StringAt c s) (count : Nat) :
    ∃ c' rest words, stripVersionLoop buf count (some c) = some (some c') ∧
      buf.StringAt c' rest ∧ Strips count s rest words := by
  induction count generalizing c s with
  | zero => exact ⟨c, s, [], rfl, at_, .nil (.inl rfl)⟩
  | succ count ih =>
    simp only [stripVersionLoop, at_.string, bind, Option.bind_some]
    split
    case isTrue unanswered => exact ⟨c, s, [], rfl, at_, .nil (.inr (.inr unanswered))⟩
    case isFalse answered =>
      cases found : strchr s space with
      | none =>
        have last := strchr_none found
        obtain ⟨c', rest, words, runs, at', strips⟩ := ih at_
        refine ⟨c', rest, words, runs, at', strips.split, strips.plain, ?_, strips.answered, ?_⟩
        · exact Nat.le_succ_of_le strips.few
        · refine .inr (.inl fun member => last ?_)
          rw [strips.split]
          exact List.mem_append_right _ member
      | some d =>
        obtain ⟨w, t, rfl, rfl, plain⟩ := strchr_some found
        have behind : buf.StringAt (c + w.length + 1) t := by
          have split : w ++ space :: t = (w ++ [space]) ++ t := by simp
          have moved := (split ▸ at_).behind
          rwa [List.length_append] at moved
        obtain ⟨c', rest, words, runs, at', strips⟩ := ih behind
        exact ⟨c', rest, w :: words, runs, at', strips.cons plain answered⟩

theorem stripVersion_gives (room : Room res) (buf : CharArray sizeofBuf) (count : Nat) :
    Gives (stripVersion count res buf) (Stripped count (received res)) := by
  rcases getText_room room buf with ⟨rfl, read⟩ | ⟨buf', s, some_text, read, at_⟩
  · refine ⟨buf, none, none, ?_, rfl, rfl⟩
    simp only [stripVersion, read, bind, Option.bind_some, stripVersionLoop_none]
  · obtain ⟨c, rest, words, runs, at', strips⟩ := stripVersionLoop_strips at_ count
    refine ⟨buf', some c, some rest, ?_, answer_stringAt at', ?_⟩
    · simp only [stripVersion, read, bind, Option.bind_some, runs]
    · rw [some_text]
      exact ⟨rest, words, rfl, strips⟩

/-! ## `strip_newline` -/

theorem stripNewlineLoop_none : stripNewlineLoop count none buf = some (buf, none) := by
  induction count with
  | zero => rfl
  | succ count ih => rw [stripNewlineLoop, ih]

theorem stripNewlineLoop_inside (at_ : buf.StringAt c s) (count : Nat) :
    ∃ buf' s', stripNewlineLoop count (some c) buf = some (buf', some c) ∧
      buf'.StringAt c s' := by
  induction count generalizing buf s with
  | zero => exact ⟨buf, s, rfl, at_⟩
  | succ count ih =>
    simp only [stripNewlineLoop, at_.string, bind, Option.bind_some]
    split
    case isTrue => exact ⟨buf, s, rfl, at_⟩
    case isFalse =>
      cases found : strchr s newline with
      | none => exact ih at_
      | some d =>
        obtain ⟨u, v, rfl, rfl, -⟩ := strchr_some found
        -- a newline becomes a space, which is no NUL
        obtain ⟨buf', writes, at', -⟩ := at_.write space
        simp only [writes, Option.bind_some]
        exact ih (at' (by decide))

theorem stripNewline_gives (room : Room res) (buf : CharArray sizeofBuf) (count : Nat) :
    Gives (stripNewline count res buf) fun _ => True := by
  rcases getText_room room buf with ⟨rfl, read⟩ | ⟨buf', s, -, read, at_⟩
  · refine ⟨buf, none, none, ?_, rfl, trivial⟩
    simp only [stripNewline, read, bind, Option.bind_some, stripNewlineLoop_none]
  · obtain ⟨buf'', s', runs, at'⟩ := stripNewlineLoop_inside at_ count
    refine ⟨buf'', some 0, some s', ?_, answer_stringAt at', trivial⟩
    simp only [stripNewline, read, bind, Option.bind_some, runs]

/-! ## `after_text` -/

theorem takeWhile_line (plain : newline ∉ s) : s.takeWhile (· ≠ newline) = s :=
  List.takeWhile_eq_self_iff.mpr fun _ member =>
    decide_eq_true (ne_of_mem_of_not_mem member plain)

/-- A marker at the beginning stays; the newline, if there is one, is behind it. -/
theorem cutLine_stringAt {rest : List UInt8} (oneLine : newline ∉ after)
    (at_ : buf.StringAt c (after ++ rest)) :
    ∃ buf', cutLine c buf = some buf' ∧
      buf'.StringAt c (after ++ rest.takeWhile (· ≠ newline)) := by
  simp only [cutLine, at_.string, bind, Option.bind_some]
  cases found : strchr (after ++ rest) newline with
  | none =>
    have last := strchr_none found
    refine ⟨buf, rfl, ?_⟩
    rwa [takeWhile_line fun member => last (List.mem_append_right _ member)]
  | some d =>
    obtain ⟨u, v, split, rfl, plain⟩ := strchr_some found
    obtain ⟨buf', writes, -, cut⟩ := (split ▸ at_).write 0
    have line : after ++ rest.takeWhile (· ≠ newline) = u := by
      rw [← takeWhile_ne (v := v) plain, ← split,
        List.takeWhile_append_of_pos fun _ member =>
          decide_eq_true (ne_of_mem_of_not_mem member oneLine)]
    exact ⟨buf', writes, line ▸ cut rfl⟩

theorem afterText_gives (room : Room res) (buf : CharArray sizeofBuf) (oneLine : newline ∉ after) :
    Gives (afterText after res buf) (Follows after (received res)) := by
  rcases getText_room room buf with ⟨rfl, read⟩ | ⟨buf', s, some_text, read, at_⟩
  · refine ⟨buf, none, none, ?_, rfl, rfl⟩
    simp only [afterText, read, bind, Option.bind_some]
  · rw [some_text]
    cases found : strstr s after with
    | none =>
      refine ⟨buf', none, none, ?_, rfl, .inl ⟨strstr_none found, rfl⟩⟩
      simp only [afterText, read, bind, Option.bind_some, at_.string, found]
    | some i =>
      obtain ⟨front, rest, rfl, rfl, first⟩ := strstr_some found
      have here : buf'.StringAt (0 + front.length) (after ++ rest) :=
        (List.append_assoc front after rest ▸ at_).behind
      obtain ⟨buf'', cut, at'⟩ := cutLine_stringAt oneLine here
      refine ⟨buf'', some (0 + front.length + after.length), _, ?_, answer_stringAt at'.behind,
        .inr ⟨front, rest, rfl, first, rfl⟩⟩
      simp only [afterText, read, bind, Option.bind_some, at_.string, found, cut]

end Room

def Recieve.OneLine : Recieve → Prop
  | .stripVersion _ => True
  | .afterText after => newline ∉ after

instance : (r : Recieve) → Decidable r.OneLine
  | .stripVersion _ => inferInstanceAs (Decidable True)
  | .afterText after => inferInstanceAs (Decidable (newline ∉ after))

theorem initProbes_oneLine : ∀ p ∈ initProbes, p.recieve.OneLine := by decide

theorem Recieve.gives {r : Recieve} (oneLine : r.OneLine) {res : Option Received} (room : Room res)
    (buf : CharArray sizeofBuf) : Gives (r.call res buf) (r.Meant (received res)) := by
  cases r with
  | stripVersion count => exact stripVersion_gives room buf count
  | afterText after => exact afterText_gives room buf oneLine

/-- The probes access only the buffer, and give what they are for, if and only if `read` does not
    fill it. -/
theorem banners_meet_iff (res : Option Received) (buf : CharArray sizeofBuf) :
    Meets res buf ↔ ∀ bs, res = some bs → bs.1.length < 2048 := by
  constructor
  · rintro ⟨⟨buf', c, a, read, -⟩, -⟩ bs rfl
    by_contra outside
    have bound := bs.2
    unfold sizeofBuf at bound
    -- the NUL would go behind the last byte of the buffer
    rw [getText_full (show bs.1.length = 2048 by omega)] at read
    cases read
  · intro room
    constructor
    case getText =>
      rcases getText_room room buf with ⟨rfl, read⟩ | ⟨buf', s, some_text, read, at_⟩
      · exact ⟨buf, none, none, read, rfl, rfl⟩
      · exact ⟨buf', some 0, some s, read, answer_stringAt at_, some_text.symm⟩
    case stripVersion => exact stripVersion_gives room buf
    case stripNewline => exact stripNewline_gives room buf
    case afterText => exact fun after oneLine => afterText_gives room buf oneLine
    case registered => exact fun p member => Recieve.gives (initProbes_oneLine p member) room buf

def fullBuffer : Received := ⟨List.replicate 2048 65, by rw [List.length_replicate]; rfl⟩

theorem full_buffer_overruns :
    ¬ ∀ (res : Option Received) (buf : CharArray sizeofBuf), Meets res buf := by
  intro meets
  obtain ⟨⟨buf', c, a, read, -⟩, -⟩ :=
    meets (some fullBuffer) ⟨List.replicate 2048 0, List.length_replicate⟩
  rw [getText_full List.length_replicate] at read
  cases read

end Cheops.Gui.Banner
