import Cheops.Lib.Bytes

/-! # OS scans: reading the output of nmap (`agent-nmapxml.c`)

`runNmapScan` reads the pipe with two loops.  The first skips what stands before a `<`, the second
fills the buffer; both stop at the end of the stream, which they see only after `fgetc` has run
into it.  `runNmapScan_read_iff` says which streams reach the XML parser as they are.
-/

namespace Cheops.OsScan

open Cheops.Lib

/-- `sizeof(buffer)`. -/
def sizeofBuffer : Nat := 80000

/-- A `FILE`: what can still be read, and its end-of-file indicator. -/
structure File where
  rest : List UInt8
  eof : Bool
deriving DecidableEq, Repr

/-- `fgetc`, stored as a `char`: `EOF` becomes the byte 255. -/
def File.fgetc (f : File) : UInt8 × File :=
  match f.rest with
  | [] => (255, { f with eof := true })
  | c :: rest => (c, { f with rest })

/-- How many more times `fgetc` can be called before the indicator is set, and once to set it. -/
def File.left (f : File) : Nat := if f.eof then 0 else f.rest.length + 1

theorem File.left_fgetc {f : File} (more : f.eof = false) : f.fgetc.2.left < f.left := by
  obtain ⟨rest, eof⟩ := f
  cases rest with
  | nil => simp_all [left, fgetc]
  | cons c rest => simp_all [left, fgetc]

/-- A byte is stored in `buffer`; `none` is a store outside of it. -/
def putBuffer (i : Nat) (c : UInt8) (buffer : Mem) : Option Mem :=
  if i < sizeofBuffer then some (Function.update buffer i c) else none

def lessThan : UInt8 := 60

/-! ## The loops -/

def skipLoop (f : File) (buffer : Mem) : Option (File × Mem) :=
  if _more : f.eof = false then do
    let buffer ← putBuffer 0 f.fgetc.1 buffer
    if lessThan = f.fgetc.1 then some (f.fgetc.2, buffer) else skipLoop f.fgetc.2 buffer
  else some (f, buffer)
termination_by f.left
decreasing_by exact File.left_fgetc _more

/-- `if(feof(pfp)) buffer[i] = '\0'`. -/
def putEnd (eof : Bool) (i : Nat) (buffer : Mem) : Option Mem :=
  if eof then putBuffer i 0 buffer else some buffer

def fillLoop (f : File) (i : Nat) (buffer : Mem) : Option (Nat × Mem) :=
  if _more : f.eof = false ∧ i < sizeofBuffer then do
    let buffer ← putBuffer i f.fgetc.1 buffer
    let buffer ← putEnd f.fgetc.2.eof i buffer
    fillLoop f.fgetc.2 (i + 1) buffer
  else some (i, buffer)
termination_by f.left
decreasing_by exact File.left_fgetc _more.1

/-- What becomes of the scan: `runNmapScan` returns `NULL`, or calls `xmlParseDoc`. -/
inductive Scanned where
  | null
  | xmlParseDoc (buffer : Mem)

/-- `runNmapScan` from the first loop on.  `stack` is what `buffer` holds before it, and `stream`
    what nmap writes to the pipe. -/
def readNmap (stack : Mem) (stream : List UInt8) : Option Scanned := do
  let (f, buffer) ← skipLoop ⟨stream, false⟩ stack
  let (i, buffer) ← fillLoop f 1 buffer
  if i = sizeofBuffer then do
    let _ ← putBuffer (sizeofBuffer - 1) 0 buffer
    some .null
  else some (.xmlParseDoc buffer)

/-! ## What is meant -/

def document (stream : List UInt8) : List UInt8 := stream.dropWhile (· ≠ lessThan)

def Fits (stream : List UInt8) : Prop := (document stream).length + 1 ≤ sizeofBuffer

instance (stream : List UInt8) : Decidable (Fits stream) := inferInstanceAs (Decidable (_ ≤ _))

/-- Nothing is stored outside of `buffer`; `NULL` is returned if there is no document or it does
    not fit; what is parsed is the document and a NUL. -/
structure ReadRight (stream : List UInt8) : Prop where
  inside : ∀ stack, readNmap stack stream ≠ none
  null_iff : ∀ stack, readNmap stack stream = some .null ↔
    lessThan ∉ stream ∨ ¬ Fits stream
  document : ∀ stack buffer, readNmap stack stream = some (.xmlParseDoc buffer) →
    slice buffer 0 ((document stream).length + 1) = document stream ++ [0]

/-! ## What the loops do -/

theorem fgetc_cons (c : UInt8) (rest : List UInt8) (eof : Bool) :
    (⟨c :: rest, eof⟩ : File).fgetc = (c, ⟨rest, eof⟩) := rfl

theorem fgetc_nil (eof : Bool) : (⟨[], eof⟩ : File).fgetc = (255, ⟨[], true⟩) := rfl

theorem putBuffer_of_lt {i : Nat} (c : UInt8) (buffer : Mem) (inside : i < sizeofBuffer) :
    putBuffer i c buffer = some (Function.update buffer i c) := if_pos inside

/-- The loop ends behind the first `<`, which it has stored. -/
theorem skipLoop_document {stream : List UInt8} (buffer : Mem) (found : lessThan ∈ stream) :
    ∃ rest, document stream = lessThan :: rest ∧
      skipLoop ⟨stream, false⟩ buffer =
        some (⟨rest, false⟩, Function.update buffer 0 lessThan) := by
  induction stream generalizing buffer with
  | nil => cases found
  | cons c stream ih =>
    rw [skipLoop, dif_pos rfl, fgetc_cons, putBuffer_of_lt _ _ (by decide)]
    by_cases first : lessThan = c
    case pos =>
      refine ⟨stream, by simp [document, ← first], ?_⟩
      simp [first]
    case neg =>
      have later := (List.mem_cons.mp found).resolve_left first
      obtain ⟨rest, skipped, loop⟩ := ih (Function.update buffer 0 c) later
      refine ⟨rest, ?_, ?_⟩
      · rw [← skipped, document, List.dropWhile_cons_of_pos (by simpa using Ne.symm first)]
        rfl
      · simp [first, loop]

/-- Without a `<` the loop reads to the end, and leaves the byte for `EOF`. -/
theorem skipLoop_none {stream : List UInt8} (buffer : Mem) (none : lessThan ∉ stream) :
    skipLoop ⟨stream, false⟩ buffer =
      some (⟨[], true⟩, Function.update buffer 0 255) := by
  induction stream generalizing buffer with
  | nil =>
    rw [skipLoop, dif_pos rfl, fgetc_nil, putBuffer_of_lt _ _ (by decide)]
    simp [lessThan, skipLoop]
  | cons c stream ih =>
    obtain ⟨first, later⟩ := not_or.mp (mt List.mem_cons.mpr none)
    rw [skipLoop, dif_pos rfl, fgetc_cons, putBuffer_of_lt _ _ (by decide)]
    simp [first, ih _ later]

theorem store_cons (m : Mem) (off : Nat) (c : UInt8) (cs : List UInt8) :
    store m off (c :: cs) = store (Function.update m off c) (off + 1) cs := by
  funext i
  simp only [store]
  rcases Nat.lt_trichotomy i off with before | rfl | behind
  · rw [if_neg (by omega), if_neg (by omega), Function.update_of_ne (by omega)]
  · simp
  · obtain ⟨k, rfl⟩ := Nat.exists_eq_add_of_lt behind
    rw [if_pos (by omega), if_pos (by omega), Function.update_of_ne (by omega),
      show off + k + 1 - off = k + 1 by omega, show off + k + 1 - (off + 1) = k by omega,
      List.getElem?_cons_succ]

theorem store_nil (m : Mem) (off : Nat) : store m off [] = m := by
  funext i
  simp [store]

/-- What is left of the stream fits behind `i` with a NUL, which may take the last place. -/
theorem fillLoop_room {rest : List UInt8} {i : Nat} (buffer : Mem)
    (room : i + rest.length < sizeofBuffer) :
    fillLoop ⟨rest, false⟩ i buffer = some (i + rest.length + 1, store buffer i (rest ++ [0])) := by
  induction rest generalizing i buffer with
  | nil =>
    rw [List.length_nil, Nat.add_zero] at room ⊢
    rw [fillLoop, dif_pos ⟨rfl, room⟩, fgetc_nil, putBuffer_of_lt _ _ room]
    simp only [Option.bind_eq_bind, Option.bind_some, putEnd, if_true]
    rw [putBuffer_of_lt _ _ room, Option.bind_some, fillLoop, dif_neg (by simp)]
    simp [store_cons, store_nil]
  | cons c rest ih =>
    rw [List.length_cons] at room
    rw [fillLoop, dif_pos ⟨rfl, by omega⟩, fgetc_cons, putBuffer_of_lt _ _ (by omega)]
    have next := ih (Function.update buffer i c) (i := i + 1) (by omega)
    simp only [Option.bind_eq_bind, Option.bind_some, putEnd, Bool.false_eq_true, if_false, next,
      List.cons_append, store_cons, List.length_cons]
    congr 2
    omega

/-- The rest does not fit, and the loop ends at the end of the buffer. -/
theorem fillLoop_full {rest : List UInt8} {i : Nat} (buffer : Mem) (inside : i ≤ sizeofBuffer)
    (long : sizeofBuffer ≤ i + rest.length) :
    ∃ buffer', fillLoop ⟨rest, false⟩ i buffer = some (sizeofBuffer, buffer') := by
  induction rest generalizing i buffer with
  | nil =>
    rw [List.length_nil] at long
    obtain rfl : i = sizeofBuffer := by omega
    exact ⟨buffer, by rw [fillLoop, dif_neg (by simp)]⟩
  | cons c rest ih =>
    rw [List.length_cons] at long
    by_cases last : i = sizeofBuffer
    case pos => exact ⟨buffer, by rw [fillLoop, dif_neg (by simp [last]), last]⟩
    case neg =>
      rw [fillLoop, dif_pos ⟨rfl, by omega⟩, fgetc_cons, putBuffer_of_lt _ _ (by omega)]
      simpa [putEnd] using ih (Function.update buffer i c) (i := i + 1) (by omega) (by omega)

/-! ## What `runNmapScan` makes of a stream -/

theorem readNmap_none {stream : List UInt8} (stack : Mem) (none : lessThan ∉ stream) :
    readNmap stack stream = some (.xmlParseDoc (Function.update stack 0 255)) := by
  rw [readNmap, skipLoop_none _ none]
  simp only [Option.bind_eq_bind, Option.bind_some]
  rw [fillLoop, dif_neg (by simp), Option.bind_some, if_neg (by simp [sizeofBuffer])]

theorem readNmap_room {stream : List UInt8} (stack : Mem) (found : lessThan ∈ stream)
    (room : (document stream).length + 1 < sizeofBuffer) :
    readNmap stack stream = some (.xmlParseDoc (store stack 0 (document stream ++ [0]))) := by
  obtain ⟨rest, skipped, loop⟩ := skipLoop_document stack found
  rw [skipped, List.length_cons] at room
  have fill : fillLoop ⟨rest, false⟩ 1 (Function.update stack 0 lessThan) =
      some (1 + rest.length + 1, store (Function.update stack 0 lessThan) 1 (rest ++ [0])) :=
    fillLoop_room _ (by omega)
  rw [readNmap, loop]
  simp only [Option.bind_eq_bind, Option.bind_some, fill]
  rw [if_neg (by omega), skipped, List.cons_append, store_cons]

theorem readNmap_long {stream : List UInt8} (stack : Mem) (found : lessThan ∈ stream)
    (long : sizeofBuffer ≤ (document stream).length + 1) :
    readNmap stack stream = some .null := by
  obtain ⟨rest, skipped, loop⟩ := skipLoop_document stack found
  rw [skipped, List.length_cons] at long
  have fill : ∃ buffer', fillLoop ⟨rest, false⟩ 1 (Function.update stack 0 lessThan) =
      some (sizeofBuffer, buffer') := by
    by_cases exactly : 1 + rest.length + 1 = sizeofBuffer
    case pos => exact ⟨_, exactly ▸ fillLoop_room _ (by omega)⟩
    case neg => exact fillLoop_full _ (by decide) (by omega)
  obtain ⟨buffer', fill⟩ := fill
  rw [readNmap, loop]
  simp only [Option.bind_eq_bind, Option.bind_some, fill, if_true]
  rw [putBuffer_of_lt _ _ (by decide), Option.bind_some]

/-- A stream is read right if it has a document and this does not just fill the buffer. -/
theorem runNmapScan_read_iff (stream : List UInt8) :
    ReadRight stream ↔
      lessThan ∈ stream ∧ (document stream).length + 1 ≠ sizeofBuffer := by
  by_cases found : lessThan ∈ stream
  case neg =>
    refine iff_of_false (fun right => ?_) fun h => found h.1
    have null := (right.null_iff fun _ => 0).mpr (.inl found)
    rw [readNmap_none _ found] at null
    simp at null
  case pos =>
    rcases Nat.lt_trichotomy ((document stream).length + 1) sizeofBuffer with room | full | long
    · refine iff_of_true ⟨?_, ?_, ?_⟩ ⟨found, by omega⟩
      · intro stack
        simp [readNmap_room stack found room]
      · intro stack
        simp [readNmap_room stack found room, found, Fits, Nat.le_of_lt room]
      · intro stack buffer parsed
        rw [readNmap_room stack found room] at parsed
        cases parsed
        have stored : slice (store stack 0 (document stream ++ [0])) 0 _ = _ := slice_store
        rwa [List.length_append, List.length_singleton] at stored
    · refine iff_of_false (fun right => ?_) fun h => h.2 full
      have null := (right.null_iff fun _ => 0).mp (readNmap_long _ found (Nat.le_of_eq full.symm))
      exact null.elim (fun none => none found) fun large => large (Nat.le_of_eq full)
    · have null (stack : Mem) := readNmap_long stack found (Nat.le_of_lt long)
      refine iff_of_true ⟨?_, ?_, ?_⟩ ⟨found, by omega⟩
      · intro stack
        simp [null]
      · intro stack
        simp only [null, Fits, Nat.not_le.mpr long, not_false_eq_true, or_true]
      · intro stack buffer parsed
        rw [null] at parsed
        cases parsed

/-- If nmap writes nothing, the parser gets whatever stood on the stack. -/
theorem runNmapScan_empty : ¬ ReadRight [] := by
  intro right
  have null := (right.null_iff fun _ => 0).mpr (.inl (by decide))
  rw [readNmap_none _ (by decide)] at null
  simp at null

end Cheops.OsScan
