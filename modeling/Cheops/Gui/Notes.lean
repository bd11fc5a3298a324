import Cheops.Lib.Wire

/-! # Notes in the configuration file (`gui-config.c`)

A value of the file is one line.  `page_object_convert_notes` writes `%0a` for each newline of the
notes, and `config_convert_notes` turns it back.  Both copy from one block of memory to another and
keep, with `index`, how far the one has got ahead of the other.

The decoder goes on for as many bytes as the encoded notes have, also when it has made fewer of
them, and takes a `%0a` of the user for a newline.  `notes_restored_iff` says which notes survive.
-/

namespace Cheops.Gui

open Cheops.Lib

def newline : UInt8 := 10

/-- `%0a`. -/
def escapeCode : List UInt8 := [37, 48, 97]

/-! ## Memory -/

/-- A block that is being filled: its contents, and the offsets that have been read of the other
    string and written in this one. -/
structure Copy where
  string : Mem
  index : Nat
  reads : List Nat
  writes : List Nat

def toInt (x : Int) : Int := (x + 2 ^ 31) % 2 ^ 32 - 2 ^ 31

/-- `malloc`: a negative size is a huge `size_t`, for which there is no memory. -/
def malloc (size : Int) : Option Nat := if size < 0 then none else some size.toNat

structure Converted extends Copy where
  size : Nat

def Copy.write (i : Nat) (c : UInt8) (s : Copy) : Copy :=
  { s with string := Function.update s.string i c, writes := s.writes ++ [i] }

def Copy.read (i : Nat) (s : Copy) : Copy := { s with reads := s.reads ++ [i] }

/-- The offsets `i + index` of a loop are `int`s.  The behaviour is undefined where they overflow,
    and so it is where `i` itself does. -/
def Copy.Defined (s : Copy) : Prop := ∀ k ∈ s.reads ++ s.writes, k < 2 ^ 31

instance (s : Copy) : Decidable s.Defined := inferInstanceAs (Decidable (∀ k ∈ _, _))

def Copy.escape (k : Nat) (s : Copy) : Copy :=
  { ((s.write k 37).write (k + 1) 48).write (k + 2) 97 with index := s.index + 2 }

/-! ## `page_object_convert_notes` -/

/-- The loop that encodes, for the given number of turns from `i` on. -/
def encodeLoop (notes : Mem) : Nat → Nat → Copy → Copy
  | 0, _, s => s
  | turns + 1, i, s =>
    let s := (s.read i).write (i + s.index) (notes i)
    if notes i = newline then encodeLoop notes turns (i + 1) (s.escape (i + s.index))
    else encodeLoop notes turns (i + 1) s

/-- `page_object_convert_notes`, which copies into a block that holds `junk`.  Without memory the
    program ends. -/
def pageObjectConvertNotes (notes junk : Mem) : Option Converted := do
  let len := toInt (strlen notes 0)
  let count := (slice notes 0 len.toNat).count newline
  let size ← malloc (strlen notes 0 + 1 + toInt (count * 3))
  -- `strlen` and the loop that counts have read the notes already
  let reads := List.range (strlen notes 0 + 1)
  if count = 0 then
    some {
      string := store junk 0 (slice notes 0 (strlen notes 0 + 1))
      index := 0
      reads
      writes := List.range (strlen notes 0 + 1)
      size }
  else
    let s := encodeLoop notes (len + 1).toNat 0 ⟨junk, 0, [], []⟩
    guard s.Defined
    some { s with reads := reads ++ s.reads, size }

/-! ## `config_convert_notes` -/

/-- The condition at offset `k`, read as far as it has to be, and what it says. -/
def atEscape (notes : Mem) (k : Nat) : Bool × List Nat :=
  if notes k ≠ 37 then (false, [k])
  else if notes (k + 1) ≠ 48 then (false, [k, k + 1])
  else (notes (k + 2) == 97, [k, k + 1, k + 2])

/-- The loop that decodes, for the given number of turns from `i` on. -/
def decodeLoop (notes : Mem) : Nat → Nat → Copy → Copy
  | 0, _, s => s
  | turns + 1, i, s =>
    let (escape, reads) := atEscape notes (i + s.index)
    let s := { s.write i (notes (i + s.index)) with reads := s.reads ++ reads }
    if escape then decodeLoop notes turns (i + 1) { s.write i newline with index := s.index + 2 }
    else decodeLoop notes turns (i + 1) s

/-- `config_convert_notes`.  For the largest `int` as `len` the size is negative. -/
def configConvertNotes (notes junk : Mem) : Option Converted := do
  let len := toInt (strlen notes 0)
  let size ← malloc (toInt (len + 1))
  let s := decodeLoop notes (len + 1).toNat 0 ⟨junk, 0, [], []⟩
  guard s.Defined
  some { s with reads := List.range (strlen notes 0 + 1) ++ s.reads, size }

/-! ## What notes should survive -/

def Converted.Is (c : Converted) (s : List UInt8) : Prop :=
  s.length < c.size ∧ StandsAt c.string 0 (s ++ [0])

/-- Nothing is read outside of a string of `length` bytes and nothing written outside of the
    block. -/
def Converted.Inside (c : Converted) (length : Nat) : Prop :=
  (∀ i ∈ c.reads, i ≤ length) ∧ ∀ i ∈ c.writes, i < c.size

/-- The notes are encoded in one line and decoded as they were, inside of what is allocated. -/
def Restored (notes junk junk' : Mem) (n : List UInt8) : Prop :=
  ∃ encoded, pageObjectConvertNotes notes junk = some encoded ∧
    encoded.Inside n.length ∧ newline ∉ cstring encoded.string 0 ∧
    ∃ decoded, configConvertNotes encoded.string junk' = some decoded ∧
      decoded.Inside (strlen encoded.string 0) ∧ decoded.Is n

def escaped (n : List UInt8) : List UInt8 :=
  n.flatMap fun c => if c = newline then escapeCode else [c]

/-! ## Encoding -/

section Encode

variable {n s : List UInt8} {notes : Mem}

theorem nul_not_mem_escaped (nul : 0 ∉ n) : 0 ∉ escaped n := by
  intro member
  obtain ⟨c, inside, here⟩ := List.mem_flatMap.mp member
  split at here
  next => exact absurd here (by decide)
  next =>
    rw [← List.mem_singleton.mp here] at inside
    exact nul inside

theorem length_escaped (n : List UInt8) : (escaped n).length = n.length + 2 * n.count newline := by
  induction n with
  | nil => rfl
  | cons c n ih =>
    rw [escaped, List.flatMap_cons, List.length_append, ← escaped, ih, List.count_cons,
      List.length_cons]
    by_cases here : c = newline
    case pos =>
      simp [here, escapeCode]
      omega
    case neg =>
      simp [here]
      omega

theorem escapeCode_infix_escaped (member : newline ∈ n) : escapeCode <:+: escaped n := by
  obtain ⟨front, back, rfl⟩ := List.append_of_mem member
  refine ⟨escaped front, escaped back, ?_⟩
  simp [escaped]

/-- The loop writes the encoded notes from where it stands on. -/
theorem encodeLoop_spec {i : Nat} (c : Copy) (stands : StandsAt notes i (s ++ [0]))
    (nul : 0 ∉ s) :
    let r := encodeLoop notes (s.length + 1) i c
    StandsAt r.string (i + c.index) (escaped s ++ [0]) ∧
      ∀ j < i + c.index, r.string j = c.string j := by
  -- induction on what is left; the index runs ahead of `i` by two for each newline
  induction s generalizing i c with
  | nil =>
    obtain ⟨ended, -⟩ := standsAt_cons.mp stands
    unfold encodeLoop encodeLoop
    rw [ended, if_neg (by decide)]
    refine ⟨standsAt_cons.mpr ⟨Function.update_self .., standsAt_nil⟩, fun j before => ?_⟩
    exact Function.update_of_ne (by omega) ..
  | cons b s ih =>
    obtain ⟨here, rest⟩ := standsAt_cons.mp stands
    rw [List.mem_cons, not_or] at nul
    rw [List.length_cons]
    unfold encodeLoop
    rw [here]
    by_cases special : b = newline
    case pos =>
      rw [if_pos special]
      generalize copied : Copy.escape _ _ = c'
      have bytes (j : Nat) : c'.string j =
          if j = i + c.index + 2 then 97 else if j = i + c.index + 1 then 48
          else if j = i + c.index then 37 else c.string j := by
        rw [← copied]
        simp only [Copy.escape, Copy.write, Copy.read, Function.update_apply]
        split_ifs <;> rfl
      have index : c'.index = c.index + 2 := by
        rw [← copied]
        rfl
      obtain ⟨later, kept⟩ := ih c' rest nul.2
      rw [show i + 1 + c'.index = i + c.index + 3 by omega] at later kept
      refine ⟨?_, fun j before => ?_⟩
      · rw [escaped, List.flatMap_cons, if_pos special, ← escaped, List.append_assoc]
        refine standsAt_append.mpr ⟨?_, later⟩
        refine standsAt_cons.mpr ⟨?_, standsAt_cons.mpr ⟨?_, standsAt_cons.mpr ⟨?_, standsAt_nil⟩⟩⟩
        · rw [kept _ (by omega), bytes]
          simp
        · rw [kept _ (by omega), bytes]
          simp
        · rw [kept _ (by omega), bytes]
          simp
      · rw [kept j (by omega), bytes, if_neg (by omega), if_neg (by omega), if_neg (by omega)]
    case neg =>
      rw [if_neg special]
      obtain ⟨later, kept⟩ := ih ((c.read i).write (i + c.index) b) rest nul.2
      rw [show i + 1 + ((c.read i).write (i + c.index) b).index = i + c.index + 1 from
        Nat.add_right_comm i 1 c.index] at later kept
      refine ⟨?_, fun j before => ?_⟩
      · rw [escaped, List.flatMap_cons, if_neg special, ← escaped, List.singleton_append,
          List.cons_append]
        refine standsAt_cons.mpr ⟨?_, later⟩
        rw [kept _ (Nat.lt_succ_self _)]
        exact Function.update_self ..
      · rw [kept j (by omega)]
        exact Function.update_of_ne (by omega) ..

end Encode

/-! ## Decoding -/

section Decode

variable {s : List UInt8} {notes : Mem} {i k : Nat}

theorem atEscape_iff :
    (atEscape notes k).1 = true ↔ notes k = 37 ∧ notes (k + 1) = 48 ∧ notes (k + 2) = 97 := by
  unfold atEscape
  split_ifs <;> simp_all

/-- The condition looks no further than the end of the string. -/
theorem atEscape_reads (stands : StandsAt notes k (s ++ [0])) (nul : 0 ∉ s) :
    k ∈ (atEscape notes k).2 ∧ ∀ r ∈ (atEscape notes k).2, r ≤ k + s.length := by
  unfold atEscape
  cases s with
  | nil =>
    obtain ⟨ended, -⟩ := standsAt_cons.mp stands
    rw [if_pos (by rw [ended]; decide)]
    simp
  | cons b s =>
    obtain ⟨here, rest⟩ := standsAt_cons.mp stands
    split_ifs with first second
    · simp
    · simp
    · cases s with
      | nil =>
        obtain ⟨ended, -⟩ := standsAt_cons.mp rest
        rw [ended] at second
        exact absurd second (by decide)
      | cons b' s => simp

/-- An escape is met where the string goes on with one. -/
theorem atEscape_iff_escape (stands : StandsAt notes k (s ++ [0])) :
    (atEscape notes k).1 = true ↔ escapeCode <+: s := by
  rw [atEscape_iff]
  constructor
  · rintro ⟨first, second, third⟩
    match s, stands with
    | [], stands =>
      have ended := (standsAt_cons.mp stands).1
      rw [first] at ended
      exact absurd ended (by decide)
    | [a], stands =>
      have ended := (standsAt_cons.mp (standsAt_cons.mp stands).2).1
      rw [second] at ended
      exact absurd ended (by decide)
    | [a, b], stands =>
      have ended := (standsAt_cons.mp (standsAt_cons.mp (standsAt_cons.mp stands).2).2).1
      rw [third] at ended
      exact absurd ended (by decide)
    | a :: b :: c :: s, stands =>
      obtain ⟨here, rest⟩ := standsAt_cons.mp stands
      obtain ⟨next, rest⟩ := standsAt_cons.mp rest
      obtain ⟨last, -⟩ := standsAt_cons.mp rest
      rw [← here, ← next, ← last, first, second, third]
      exact ⟨s, rfl⟩
  · rintro ⟨s, rfl⟩
    obtain ⟨here, rest⟩ := standsAt_cons.mp stands
    obtain ⟨next, rest⟩ := standsAt_cons.mp rest
    exact ⟨here, next, (standsAt_cons.mp rest).1⟩

/-- One turn of the loop. -/
theorem decodeLoop_succ (notes : Mem) (i turns : Nat) (c : Copy) :
    ∃ c' : Copy, decodeLoop notes (turns + 1) i c = decodeLoop notes turns (i + 1) c' ∧
      c'.index = c.index + (if (atEscape notes (i + c.index)).1 then 2 else 0) ∧
      c'.reads = c.reads ++ (atEscape notes (i + c.index)).2 ∧
      (∀ k ∈ c'.writes, k ∈ c.writes ∨ k = i) ∧
      c'.string = Function.update c.string i
        (if (atEscape notes (i + c.index)).1 then newline else notes (i + c.index)) := by
  rw [decodeLoop]
  dsimp only
  cases (atEscape notes (i + c.index)).1 with
  | true =>
    refine ⟨_, rfl, rfl, rfl, ?_, ?_⟩
    · simp [Copy.write]
    · exact Function.update_idem ..
  | false =>
    refine ⟨_, rfl, rfl, rfl, ?_, rfl⟩
    simp [Copy.write]

/-- The last turn reads at both of its offsets together. -/
theorem decodeLoop_reads (notes : Mem) (i turns : Nat) (c : Copy) :
    (∀ k ∈ c.reads, k ∈ (decodeLoop notes turns i c).reads) ∧
      (0 < turns → ∃ k ∈ (decodeLoop notes turns i c).reads, i + c.index + turns ≤ k + 1) := by
  induction turns generalizing i c with
  | zero => exact ⟨fun k member => member, fun none => absurd none (Nat.lt_irrefl 0)⟩
  | succ turns ih =>
    obtain ⟨c', next, index, reads, -, -⟩ := decodeLoop_succ notes i turns c
    obtain ⟨kept, last⟩ := ih (i + 1) c'
    rw [next]
    refine ⟨fun k member => kept k (by rw [reads]; exact List.mem_append_left _ member),
      fun _ => ?_⟩
    cases turns with
    | zero =>
      refine ⟨i + c.index, kept _ ?_, by omega⟩
      rw [reads]
      apply List.mem_append_right
      unfold atEscape
      split_ifs <;> simp
    | succ turns =>
      obtain ⟨k, member, far⟩ := last (Nat.succ_pos turns)
      exact ⟨k, member, by omega⟩

/-- A turn where no escape is met copies a byte. -/
theorem decodeLoop_copies (turns : Nat) (c : Copy) (start : c.index = 0)
    (stands : StandsAt notes i (s ++ [0])) (nul : 0 ∉ s) (plain : ¬ escapeCode <+: s) :
    ∃ c' : Copy, decodeLoop notes (turns + 1) i c = decodeLoop notes turns (i + 1) c' ∧
      c'.index = 0 ∧ c'.string i = notes i ∧ (∀ j < i, c'.string j = c.string j) ∧
      (∀ k ∈ c'.reads, k ∈ c.reads ∨ k ≤ i + s.length) ∧
      ∀ k ∈ c'.writes, k ∈ c.writes ∨ k = i := by
  obtain ⟨c', next, index, reads, writes, string⟩ := decodeLoop_succ notes i turns c
  have none : ¬ (atEscape notes i).1 = true := by rwa [atEscape_iff_escape stands]
  rw [start, Nat.add_zero] at index reads string
  rw [if_neg none] at index string
  refine ⟨c', next, index, ?_, fun j before => ?_, fun k member => ?_, writes⟩
  · rw [string, Function.update_self]
  · rw [string, Function.update_of_ne (by omega)]
  · rw [reads, List.mem_append] at member
    exact member.imp_right ((atEscape_reads stands nul).2 k)

/-- A string without an escape is copied. -/
theorem decodeLoop_plain (c : Copy) (start : c.index = 0) (stands : StandsAt notes i (s ++ [0]))
    (nul : 0 ∉ s) (plain : ¬ escapeCode <:+: s) :
    let r := decodeLoop notes (s.length + 1) i c
    StandsAt r.string i (s ++ [0]) ∧ (∀ j < i, r.string j = c.string j) ∧
      (∀ k ∈ r.reads, k ∈ c.reads ∨ k ≤ i + s.length) ∧
      ∀ k ∈ r.writes, k ∈ c.writes ∨ k ≤ i + s.length := by
  induction s generalizing i c with
  | nil =>
    obtain ⟨c', next, -, byte, kept, reads, writes⟩ :=
      decodeLoop_copies 0 c start stands nul fun first => plain first.isInfix
    obtain ⟨ended, -⟩ := standsAt_cons.mp stands
    rw [List.length_nil, next]
    -- the first byte is from this turn, the rest from the later ones, which keep it
    refine ⟨standsAt_cons.mpr ⟨byte.trans ended, standsAt_nil⟩, kept, reads, fun k member => ?_⟩
    exact (writes k member).imp_right Nat.le_of_eq
  | cons b s ih =>
    obtain ⟨c', next, index, byte, kept, reads, writes⟩ :=
      decodeLoop_copies (b :: s).length c start stands nul
        fun first => plain first.isInfix
    obtain ⟨here, rest⟩ := standsAt_cons.mp stands
    rw [List.mem_cons, not_or] at nul
    obtain ⟨later, kept', reads', writes'⟩ := ih c' index rest nul.2
      fun inside => plain (inside.trans (List.suffix_cons b s).isInfix)
    rw [next]
    refine ⟨standsAt_cons.mpr ⟨?_, later⟩, fun j before => ?_, fun k member => ?_,
      fun k member => ?_⟩
    · rw [List.length_cons, kept' i (Nat.lt_succ_self i), byte, here]
    · rw [List.length_cons, kept' j (by omega), kept j before]
    · rw [List.length_cons] at member ⊢
      rcases reads' k member with before | le
      · exact reads k before
      · exact .inr (by omega)
    · rw [List.length_cons] at member ⊢
      rcases writes' k member with before | le
      · exact (writes k before).imp_right (by omega)
      · exact .inr (by omega)

/-- Behind an escape the loop reads past the end of the string. -/
theorem decodeLoop_escape (c : Copy) (start : c.index = 0) (stands : StandsAt notes i (s ++ [0]))
    (nul : 0 ∉ s) (escape : escapeCode <:+: s) :
    ∃ k ∈ (decodeLoop notes (s.length + 1) i c).reads, i + s.length < k := by
  induction s generalizing i c with
  | nil => exact absurd (List.infix_nil.mp escape) (by decide)
  | cons b s ih =>
    obtain ⟨c', next, index, reads, -, -⟩ := decodeLoop_succ notes i
      (b :: s).length c
    rw [next]
    rw [start, Nat.add_zero] at index
    -- the index grows at the escape, and the last read is that much behind the end
    cases here : (atEscape notes i).1 with
    | true =>
      rw [here] at index
      obtain ⟨k, member, far⟩ := (decodeLoop_reads notes (i + 1) (b :: s).length c').2
        (by simp)
      refine ⟨k, member, ?_⟩
      rw [index, if_pos rfl] at far
      omega
    | false =>
      rw [here] at index
      have later : escapeCode <:+: s := by
        rcases List.infix_cons_iff.mp escape with first | later
        · rw [(atEscape_iff_escape stands).mpr first] at here
          cases here
        · exact later
      rw [List.mem_cons, not_or] at nul
      obtain ⟨k, member, far⟩ := ih c' (by simpa [start] using index) (standsAt_cons.mp stands).2
        nul.2 later
      exact ⟨k, member, by rw [List.length_cons]; omega⟩

end Decode

/-! ## Which notes survive -/

section Restore

variable {n e : List UInt8} {notes junk junk' : Mem}

theorem toInt_lt (x : Int) : toInt x < 2 ^ 31 := by
  unfold toInt
  omega

theorem toInt_of_lt {x : Nat} (small : x < 2 ^ 31) : toInt x = x := by
  unfold toInt
  omega

theorem size_of_malloc {size : Int} {bytes : Nat} (got : malloc size = some bytes) :
    (bytes : Int) = size := by
  unfold malloc at got
  split at got
  next => cases got
  next positive =>
    cases got
    omega

/-- What a returned value says about the loop. -/
theorem configConvertNotes_returns {decoded : Converted}
    (returns : configConvertNotes notes junk = some decoded) :
    let len := toInt (strlen notes 0)
    let s := decodeLoop notes (len + 1).toNat 0 ⟨junk, 0, [], []⟩
    (decoded.size : Int) = toInt (len + 1) ∧
      decoded.reads = List.range (strlen notes 0 + 1) ++ s.reads := by
  simp only [configConvertNotes, bind, Option.bind_eq_some_iff, Option.some.injEq] at returns
  obtain ⟨size, got, -, -, rfl⟩ := returns
  exact ⟨size_of_malloc got, rfl⟩

/-- Decoded notes are shorter than the largest `int`. -/
theorem length_lt_of_is {decoded : Converted}
    (returns : configConvertNotes notes junk = some decoded) (is : decoded.Is n) :
    (n.length : Int) < toInt (toInt (strlen notes 0) + 1) ∧ n.length + 1 < 2 ^ 31 := by
  have size := (configConvertNotes_returns returns).1
  have shorter : n.length < decoded.size := is.1
  have bounded := toInt_lt (toInt (strlen notes 0) + 1)
  constructor <;> omega

/-- Without a newline the notes are copied as they are. -/
theorem pageObjectConvertNotes_plain (junk : Mem) (stands : StandsAt notes 0 (n ++ [0]))
    (nul : 0 ∉ n) (small : n.length < 2 ^ 31) (plain : newline ∉ n) :
    ∃ encoded, pageObjectConvertNotes notes junk = some encoded ∧ encoded.Inside n.length ∧
      StandsAt encoded.string 0 (n ++ [0]) := by
  have len := stands.strlen nul (by omega)
  have whole : slice notes 0 n.length = n := (standsAt_append.mp stands).1
  have ended : slice notes 0 (n.length + 1) = n ++ [0] := by
    simpa [StandsAt] using stands
  have nothing : toInt ((0 : Nat) * 3) = 0 := by decide
  have got : malloc (n.length + 1 + 0) = some (n.length + 1) := by
    rw [malloc, if_neg (by omega)]
    congr 1
  have returns : pageObjectConvertNotes notes junk = some
      { string := store junk 0 (n ++ [0]), index := 0, reads := List.range (n.length + 1),
        writes := List.range (n.length + 1), size := n.length + 1 } := by
    simp only [pageObjectConvertNotes, len, toInt_of_lt small, Int.toNat_natCast, whole,
      List.count_eq_zero.mpr plain, nothing, got, bind, Option.bind_some, if_pos, ended]
  have copied : StandsAt (store junk 0 (n ++ [0])) 0 (n ++ [0]) := standsAt_store
  refine ⟨_, returns, ⟨fun i member => ?_, fun i member => ?_⟩, copied⟩
  · exact Nat.le_of_lt_succ (List.mem_range.mp member)
  · exact List.mem_range.mp member

/-- With one they are encoded. -/
theorem pageObjectConvertNotes_escapes {encoded : Converted}
    (stands : StandsAt notes 0 (n ++ [0])) (nul : 0 ∉ n) (small : n.length < 2 ^ 31)
    (special : newline ∈ n) (returns : pageObjectConvertNotes notes junk = some encoded) :
    StandsAt encoded.string 0 (escaped n ++ [0]) := by
  have len := stands.strlen nul (by omega)
  have whole : slice notes 0 n.length = n := (standsAt_append.mp stands).1
  have some_newline : n.count newline ≠ 0 := fun none => List.count_eq_zero.mp none special
  simp only [pageObjectConvertNotes, len, toInt_of_lt small, Int.toNat_natCast, whole,
    if_neg some_newline, bind, Option.bind_eq_some_iff, Option.some.injEq] at returns
  obtain ⟨size, -, -, -, rfl⟩ := returns
  exact (encodeLoop_spec _ stands nul).1

/-- The decoder copies what has no escape. -/
theorem configConvertNotes_plain (junk : Mem) (stands : StandsAt notes 0 (n ++ [0]))
    (nul : 0 ∉ n) (small : n.length + 1 < 2 ^ 31) (plain : ¬ escapeCode <:+: n) :
    ∃ decoded, configConvertNotes notes junk = some decoded ∧ decoded.Inside n.length ∧
      decoded.Is n := by
  have len := stands.strlen nul (by omega)
  have int : toInt n.length = n.length := toInt_of_lt (by omega)
  have int' : toInt (n.length + 1) = n.length + 1 := toInt_of_lt small
  have got : malloc (n.length + 1) = some (n.length + 1) := by
    rw [malloc, if_neg (by omega)]
    congr 1
  obtain ⟨copied, -, reads, writes⟩ := decodeLoop_plain ⟨junk, 0, [], []⟩ rfl stands nul plain
  rw [Nat.zero_add] at reads writes
  have read (i : Nat) (member : i ∈ (decodeLoop notes (n.length + 1) 0 ⟨junk, 0, [], []⟩).reads) :
      i ≤ n.length := (reads i member).resolve_left List.not_mem_nil
  have written (i : Nat)
      (member : i ∈ (decodeLoop notes (n.length + 1) 0 ⟨junk, 0, [], []⟩).writes) :
      i ≤ n.length := (writes i member).resolve_left List.not_mem_nil
  have defined : (decodeLoop notes (n.length + 1) 0 ⟨junk, 0, [], []⟩).Defined := by
    intro k member
    rcases List.mem_append.mp member with member | member
    · have := read k member
      omega
    · have := written k member
      omega
  have returns : configConvertNotes notes junk = some
      { decodeLoop notes (n.length + 1) 0 ⟨junk, 0, [], []⟩ with
        reads := List.range (n.length + 1) ++
          (decodeLoop notes (n.length + 1) 0 ⟨junk, 0, [], []⟩).reads
        size := n.length + 1 } := by
    have turns : ((n.length : Int) + 1).toNat = n.length + 1 := by omega
    simp only [configConvertNotes, len, int, int', got, turns, guard, if_pos defined, bind,
      Option.bind_some]
    rfl
  refine ⟨_, returns, ⟨fun i member => ?_, fun i member => ?_⟩, Nat.lt_succ_self _, copied⟩
  · rcases List.mem_append.mp member with early | later
    · exact Nat.le_of_lt_succ (List.mem_range.mp early)
    · exact read i later
  · exact Nat.lt_succ_of_le (written i member)

/-- Where there is one it leaves the string. -/
theorem configConvertNotes_escapes {decoded : Converted} (stands : StandsAt notes 0 (n ++ [0]))
    (nul : 0 ∉ n) (small : n.length < 2 ^ 31) (escape : escapeCode <:+: n)
    (returns : configConvertNotes notes junk = some decoded) : ¬ decoded.Inside n.length := by
  intro inside
  have reads := (configConvertNotes_returns returns).2
  rw [stands.strlen nul (by omega), toInt_of_lt small] at reads
  obtain ⟨k, member, far⟩ := decodeLoop_escape ⟨junk, 0, [], []⟩ rfl stands nul escape
  have near : k ≤ n.length := inside.1 k (reads ▸ List.mem_append_right _ member)
  omega

/-- Notes survive the file exactly if they are a single line, without the code for a newline in
    them, and the size of their block is an `int`. -/
theorem notes_restored_iff (stands : StandsAt notes 0 (n ++ [0])) (nul : 0 ∉ n) :
    Restored notes junk junk' n ↔
      n.length + 1 < 2 ^ 31 ∧ newline ∉ n ∧ ¬ escapeCode <:+: n := by
  constructor
  · rintro ⟨encoded, encodes, -, -, decoded, decodes, inside, is⟩
    obtain ⟨shorter, small⟩ := length_lt_of_is decodes is
    have plain : newline ∉ n := by
      intro special
      have stands' := pageObjectConvertNotes_escapes stands nul (by omega) special encodes
      have length := length_escaped n
      have count : n.count newline ≤ n.length := List.count_le_length
      have len := stands'.strlen (nul_not_mem_escaped nul) (by omega)
      rw [len] at shorter inside
      -- a length that is no `int` would leave too small a block
      have small' : (escaped n).length < 2 ^ 31 := by
        unfold toInt at shorter
        omega
      exact configConvertNotes_escapes stands' (nul_not_mem_escaped nul) small'
        (escapeCode_infix_escaped special) decodes inside
    refine ⟨small, plain, fun escape => ?_⟩
    obtain ⟨encoded', encodes', -, stands'⟩ :=
      pageObjectConvertNotes_plain junk stands nul (by omega) plain
    rw [encodes] at encodes'
    cases encodes'
    rw [stands'.strlen nul (by omega)] at inside
    exact configConvertNotes_escapes stands' nul (by omega) escape decodes inside
  · rintro ⟨small, plain, simple⟩
    obtain ⟨encoded, encodes, inside, stands'⟩ :=
      pageObjectConvertNotes_plain junk stands nul (by omega) plain
    obtain ⟨decoded, decodes, inside', is⟩ :=
      configConvertNotes_plain junk' stands' nul small simple
    refine ⟨encoded, encodes, inside, ?_, decoded, decodes, ?_, is⟩
    · rwa [stands'.cstring nul (by omega)]
    · rwa [stands'.strlen nul (by omega)]

/-- A line with a percent sign in it survives. -/
theorem notes_restored_iff_percent :
    Restored (store (fun _ => 0) 0 [97, 37, 48, 0]) (fun _ => 0) (fun _ => 0) [97, 37, 48] :=
  (notes_restored_iff (n := [97, 37, 48]) standsAt_store (by decide)).mpr (by decide)

/-- Two lines do not: the decoder reads behind the string. -/
theorem notes_two_lines_lost :
    ¬ Restored (store (fun _ => 0) 0 [97, 10, 98, 0]) (fun _ => 0) (fun _ => 0) [97, 10, 98] := by
  rintro ⟨encoded, encodes, -, -, decoded, decodes, inside, is⟩
  have small : [97, 10, 98].length < 2 ^ 31 := by decide
  have stands' := pageObjectConvertNotes_escapes (n := [97, 10, 98]) standsAt_store (by decide)
    small (by decide) encodes
  rw [stands'.strlen (by decide) (by decide)] at inside
  exact configConvertNotes_escapes stands' (by decide) (by decide) (by decide) decodes inside

end Restore

end Cheops.Gui
