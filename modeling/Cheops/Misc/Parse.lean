import Cheops.Lib.Wire
import Cheops.Misc.Grammar

/-! # Splitting a command line in place (`misc.c`)

`parse` puts a NUL behind each token, in the string itself, and stores pointers to the tokens.  The
scan is that of `produced`; `parse_iff` says for which lines it does what its comment promises.
-/

namespace Cheops.Misc

open Cheops.Lib

/-! ## `parse` -/

/-- The variables of `parse`, the memory that it writes to, and the indices in `argv` at which it
    has stored a pointer. -/
structure Parsing where
  memory : Mem
  s : Nat
  argv : Nat → Nat
  c : Nat
  inquote : Bool
  stores : List Nat

/-- `while(*s && ((*s == ' ') || (*s == '\t'))) s++;` -/
def skipBlanks (memory : Mem) : Nat → Nat → Option Nat
  | 0, _ => none
  | fuel + 1, s =>
    if memory s ≠ 0 ∧ isBlank (memory s) then skipBlanks memory fuel (s + 1) else some s

/-- `argv[k] = pointer`. -/
def Parsing.store (k pointer : Nat) (p : Parsing) : Parsing :=
  { p with argv := Function.update p.argv k pointer, stores := p.stores ++ [k] }

@[simp] theorem Parsing.memory_store (k a : Nat) (p : Parsing) :
    (p.store k a).memory = p.memory := rfl

@[simp] theorem Parsing.s_store (k a : Nat) (p : Parsing) : (p.store k a).s = p.s := rfl

@[simp] theorem Parsing.c_store (k a : Nat) (p : Parsing) : (p.store k a).c = p.c := rfl

@[simp] theorem Parsing.argv_store_self (k a : Nat) (p : Parsing) : (p.store k a).argv k = a :=
  Function.update_self ..

theorem Parsing.argv_store_of_ne {i k : Nat} (other : i ≠ k) (a : Nat) (p : Parsing) :
    (p.store k a).argv i = p.argv i := Function.update_of_ne other ..

@[simp] theorem Parsing.mem_stores_store (i k a : Nat) (p : Parsing) :
    i ∈ (p.store k a).stores ↔ i ∈ p.stores ∨ i = k := by simp [Parsing.store]

def Parsing.blank (fuel : Nat) (p : Parsing) : Option Parsing :=
  if p.inquote then some p
  else do
    let memory := Function.update p.memory p.s 0
    let s ← skipBlanks memory fuel (p.s + 1)
    let p := { p with memory }
    some (if memory s = 0 then { p with s := s - 1 }
      else { p.store p.c s with c := p.c + 1, s := s - 1 })

/-- The `switch`; the case of a closing quote falls through. -/
def Parsing.turn (fuel : Nat) (p : Parsing) : Option Parsing :=
  if p.memory p.s = quote then
    let p := { p with inquote := !p.inquote }
    if p.inquote then some (p.store (p.c - 1) (p.argv (p.c - 1) + 1))
    else { p with memory := Function.update p.memory p.s 32 }.blank fuel
  else if isBlank (p.memory p.s) then p.blank fuel
  else some p

def parseLoop : Nat → Parsing → Option Parsing
  | 0, _ => none
  | fuel + 1, p =>
    if p.memory p.s = 0 then some p
    else do
      let p ← p.turn (fuel + 1)
      parseLoop fuel { p with s := p.s + 1 }

/-- `parse`, with what it returns.  It makes no use of `args`. -/
def parse (fuel : Nat) (argv : Nat → Nat) (_args s : Nat) (memory : Mem) :
    Option (Int × Parsing) := do
  let p ← parseLoop fuel
    { memory, s, argv := Function.update argv 0 s, c := 1, inquote := false, stores := [0] }
  some (if p.inquote then -1 else p.c, p)

def IsString (memory : Mem) (a : Nat) (t : List UInt8) : Prop :=
  StandsAt memory a (t ++ [0]) ∧ 0 ∉ t

/-- No more than `args` pointers are stored, and they point to the tokens of a line with closed
    quotes. -/
structure Parses (args : Nat) (line : List UInt8) (returns : Int) (p : Parsing) : Prop where
  stores : ∀ k ∈ p.stores, k < args
  le : returns ≤ args
  unclosed : returns = -1 ↔ line.count quote % 2 = 1
  tokens : line.count quote % 2 ≠ 1 → ∃ ts, Tokens line ts ∧ returns = ts.length ∧
    ∀ k t, ts[k]? = some t → IsString p.memory (p.argv k) t

/-! ## The scan in memory -/

section Loop

variable {memory memory' : Mem} {a i fuel : Nat} {b : UInt8} {t t' w rest : List UInt8}
  {p : Parsing} {done : List (List UInt8)}

theorem standsAt_update (stands : StandsAt memory a t) (apart : a + t.length ≤ i ∨ i < a) :
    StandsAt (Function.update memory i b) a t := by
  induction t generalizing a with
  | nil => exact standsAt_nil
  | cons c t ih =>
    obtain ⟨here, rest⟩ := standsAt_cons.mp stands
    rw [List.length_cons] at apart
    refine standsAt_cons.mpr ⟨?_, ih rest (by omega)⟩
    rw [Function.update_of_ne (by omega), here]

theorem IsString.unique (first : IsString memory a t) (second : IsString memory a t') :
    t = t' := by
  obtain ⟨stands, nul⟩ := first
  obtain ⟨stands', nul'⟩ := second
  induction t generalizing a t' with
  | nil =>
    obtain ⟨ended, -⟩ := standsAt_cons.mp stands
    cases t' with
    | nil => rfl
    | cons c t' => exact absurd ((standsAt_cons.mp stands').1.symm.trans ended) (by grind)
  | cons c t ih =>
    obtain ⟨here, rest⟩ := standsAt_cons.mp stands
    rw [List.mem_cons, not_or] at nul
    cases t' with
    | nil => exact absurd (here.symm.trans (standsAt_cons.mp stands').1) (Ne.symm nul.1)
    | cons c' t' =>
      obtain ⟨here', rest'⟩ := standsAt_cons.mp stands'
      rw [List.mem_cons, not_or] at nul'
      rw [← here, ← here', ih rest nul.2 rest' nul'.2]

/-- The loop skips the blanks. -/
theorem skipBlanks_spec (stands : StandsAt memory a (rest ++ [0])) (enough : rest.length < fuel) :
    ∃ n, skipBlanks memory fuel a = some (a + n) ∧
      StandsAt memory (a + n) (rest.dropWhile isBlank ++ [0]) := by
  induction rest generalizing a fuel with
  | nil =>
    obtain ⟨fuel, rfl⟩ : ∃ k, fuel = k + 1 := ⟨fuel - 1, by simp at enough; omega⟩
    obtain ⟨ended, -⟩ := standsAt_cons.mp stands
    exact ⟨0, by rw [skipBlanks, if_neg (by simp [ended])]; rfl, stands⟩
  | cons c rest ih =>
    obtain ⟨fuel, rfl⟩ : ∃ k, fuel = k + 1 := ⟨fuel - 1, by simp at enough; omega⟩
    rw [List.length_cons] at enough
    obtain ⟨here, later⟩ := standsAt_cons.mp stands
    cases blank : isBlank c with
    | true =>
      have nonzero : c ≠ 0 := by
        rintro rfl
        exact absurd blank (by decide)
      have shorter : rest.length < fuel := by omega
      obtain ⟨n, skipped, at_n⟩ := ih later shorter
      refine ⟨n + 1, ?_, ?_⟩
      · rw [skipBlanks, if_pos (by rw [here]; exact ⟨nonzero, blank⟩), skipped]
        congr 1
        omega
      · rw [List.dropWhile_cons_of_pos blank, show a + (n + 1) = a + 1 + n by omega]
        exact at_n
    | false =>
      refine ⟨0, ?_, ?_⟩
      · rw [skipBlanks, if_neg (by simp [here, blank])]
        rfl
      · rw [List.dropWhile_cons_of_neg (by simp [blank])]
        exact stands

/-- The strings in `done` are ended, and the one in `current` has been read up to `s`. -/
structure Stands (p : Parsing) (done : List (List UInt8)) (current : Option (List UInt8)) :
    Prop where
  count : p.c = done.length + current.isSome.toNat
  ended : ∀ k t, done[k]? = some t → IsString p.memory (p.argv k) t ∧ p.argv k + t.length < p.s
  begun : ∀ w, current = some w → StandsAt p.memory (p.argv done.length) w ∧
    p.argv done.length + w.length = p.s ∧ 0 ∉ w
  stores : ∀ k, k ∈ p.stores ↔ k < p.c

/-- What is written at `s` touches none of them. -/
theorem Stands.update {current : Option (List UInt8)} (stands : Stands p done current) (b : UInt8) :
    Stands { p with memory := Function.update p.memory p.s b } done current := by
  obtain ⟨count, ended, begun, stores⟩ := stands
  refine ⟨count, fun k t found => ?_, fun w same => ?_, stores⟩
  · obtain ⟨⟨string, nul⟩, before⟩ := ended k t found
    refine ⟨⟨standsAt_update string (.inl ?_), nul⟩, before⟩
    rw [List.length_append]
    exact before
  · obtain ⟨string, upto, nul⟩ := begun w same
    exact ⟨standsAt_update string (.inl (Nat.le_of_eq upto)), upto, nul⟩

/-- A character is added to the string that has been begun. -/
theorem Stands.next (stands : Stands p done (some w)) (here : p.memory p.s = b) (nonzero : b ≠ 0) :
    Stands { p with s := p.s + 1 } done (some (w ++ [b])) := by
  obtain ⟨count, ended, begun, stores⟩ := stands
  refine ⟨count, fun k t found => ?_, fun w' same => ?_, stores⟩
  · obtain ⟨string, before⟩ := ended k t found
    exact ⟨string, Nat.lt_succ_of_lt before⟩
  · cases same
    obtain ⟨string, upto, nul⟩ := begun w rfl
    refine ⟨standsAt_append.mpr ⟨string, ?_⟩, ?_, ?_⟩
    · rw [upto]
      exact standsAt_cons.mpr ⟨here, standsAt_nil⟩
    · rw [List.length_append, List.length_singleton, ← Nat.add_assoc, upto]
    · simp [nul, Ne.symm nonzero]

/-- The pointer to it moves on. -/
theorem Stands.drop (stands : Stands p done (some w)) (nonempty : w ≠ []) :
    Stands (p.store (p.c - 1) (p.argv (p.c - 1) + 1)) done (some w.tail) := by
  obtain ⟨count, ended, begun, stores⟩ := stands
  have last : p.c - 1 = done.length := by simp [count]
  refine ⟨count, fun k t found => ?_, fun w' same => ?_, fun k => ?_⟩
  · obtain ⟨string, before⟩ := ended k t found
    have other : k ≠ p.c - 1 := by
      have := (List.getElem?_eq_some_iff.mp found).1
      omega
    rw [Parsing.argv_store_of_ne other]
    exact ⟨string, before⟩
  · cases same
    obtain ⟨string, upto, nul⟩ := begun w rfl
    cases w with
    | nil => exact absurd rfl nonempty
    | cons c w =>
      rw [List.length_cons] at upto
      rw [List.mem_cons, not_or] at nul
      rw [last, Parsing.argv_store_self, List.tail_cons]
      refine ⟨(standsAt_cons.mp string).2, ?_, nul.2⟩
      rw [Parsing.s_store]
      omega
  · rw [Parsing.mem_stores_store, stores, Parsing.c_store]
    simp only [count, Option.isSome_some, Bool.toNat_true]
    omega

/-- A NUL at `s` ends it. -/
theorem Stands.close (stands : Stands p done (some w)) {s : Nat} (behind : p.s < s) :
    Stands { p with memory := Function.update p.memory p.s 0, s } (done ++ [w]) none := by
  obtain ⟨count, ended, begun, stores⟩ := stands.update 0
  obtain ⟨string, upto, nul⟩ := begun w rfl
  dsimp only at upto
  have length : p.c = (done ++ [w]).length := by simpa using count
  refine ⟨by simp [length], fun k t found => ?_, (fun w' same => by cases same), stores⟩
  rcases Nat.lt_or_ge k done.length with early | late
  · rw [List.getElem?_append_left early] at found
    obtain ⟨string, before⟩ := ended k t found
    exact ⟨string, Nat.lt_trans before behind⟩
  · have here : k = done.length := by
      have bound := (List.getElem?_eq_some_iff.mp found).1
      rw [List.length_append, List.length_singleton] at bound
      omega
    subst here
    rw [List.getElem?_append_right (Nat.le_refl _), Nat.sub_self] at found
    cases found
    refine ⟨⟨standsAt_append.mpr ⟨string, ?_⟩, nul⟩, by dsimp only; omega⟩
    dsimp only
    rw [upto]
    exact standsAt_cons.mpr ⟨Function.update_self .., standsAt_nil⟩

/-- A pointer to the next string is stored. -/
theorem Stands.start (stands : Stands p done none) :
    Stands { p.store p.c p.s with c := p.c + 1 } done (some []) := by
  obtain ⟨count, ended, -, stores⟩ := stands
  have last : p.c = done.length := by simp [count]
  refine ⟨by rw [last]; rfl, fun k t found => ?_, fun w' same => ?_, fun k => ?_⟩
  · have other : k ≠ p.c := by
      have := (List.getElem?_eq_some_iff.mp found).1
      omega
    dsimp only
    rw [Parsing.argv_store_of_ne other]
    exact ended k t found
  · cases same
    refine ⟨standsAt_nil, ?_, List.not_mem_nil⟩
    dsimp only
    rw [← last, Parsing.argv_store_self]
    rfl
  · dsimp only
    rw [Parsing.mem_stores_store, stores]
    omega

/-- What is left of a line behind the end of a string, and whether another one has been begun. -/
def afterGap (rest : List UInt8) : Option (List UInt8) :=
  if rest.dropWhile isBlank = [] then none else some []

theorem produced_gap (rest : List UInt8) :
    produced none false rest = produced (afterGap rest) false (rest.dropWhile isBlank) := by
  induction rest with
  | nil => rfl
  | cons c rest ih =>
    cases blank : isBlank c with
    | true =>
      rw [produced, if_pos blank, ih, afterGap, afterGap, List.dropWhile_cons_of_pos blank]
    | false =>
      rw [afterGap, List.dropWhile_cons_of_neg (by simp [blank]), if_neg (List.cons_ne_nil _ _)]
      obtain ⟨_, _, _, reads, eq⟩ := produced_cons none false c rest
      obtain ⟨_, _, _, reads', eq'⟩ := produced_cons (some []) false c rest
      rw [eq, eq']
      cases reads with
      | gap blank' => rw [blank] at blank'; cases blank'
      | opens =>
        cases reads' with
        | opensInside => rfl
        | ends blank' => rw [blank] at blank'; cases blank'
        | inWord _ other => exact absurd rfl other
      | starts _ other =>
        cases reads' with
        | opensInside => exact absurd rfl other
        | ends blank' => rw [blank] at blank'; cases blank'
        | inWord => rfl

theorem opened_dropWhile (rest : List UInt8) : opened (rest.dropWhile isBlank) = opened rest := by
  have simple : quote ∉ rest.takeWhile isBlank := fun member =>
    absurd (List.mem_takeWhile_imp member) (by decide)
  conv_rhs => rw [← List.takeWhile_append_dropWhile (p := isBlank) (l := rest)]
  rw [opened_append, opened_of_not_mem simple, Bool.false_xor]

/-- The turn that ends a string, at a blank or at a closing quote. -/
theorem blank_spec (fuel : Nat) (stands : Stands p done (some w)) (closed : p.inquote = false)
    (later : StandsAt p.memory (p.s + 1) (rest ++ [0])) (nul : 0 ∉ rest)
    (enough : rest.length < fuel) :
    ∃ p', p.blank fuel = some p' ∧ p'.inquote = false ∧
      Stands { p' with s := p'.s + 1 } (done ++ [w]) (afterGap rest) ∧
      StandsAt p'.memory (p'.s + 1) (rest.dropWhile isBlank ++ [0]) := by
  obtain ⟨n, skipped, found⟩ := skipBlanks_spec
    (standsAt_update (i := p.s) (b := 0) later (.inr (Nat.lt_succ_self _))) enough
  have ended := stands.close (s := p.s + 1 + n) (by omega)
  have back : p.s + 1 + n - 1 + 1 = p.s + 1 + n := by omega
  rw [Parsing.blank, if_neg (by simp [closed])]
  cases left : rest.dropWhile isBlank with
  | nil =>
    rw [left] at found
    have nul_found := (standsAt_cons.mp found).1
    refine ⟨{ p with memory := Function.update p.memory p.s 0, s := p.s + 1 + n - 1 }, ?_, closed,
      ?_, ?_⟩
    · simp only [skipped, bind, Option.bind_some, nul_found, if_pos]
    · rw [afterGap, if_pos left]
      dsimp only
      rw [back]
      exact ended
    · dsimp only
      rw [back]
      exact found
  | cons c left' =>
    rw [left] at found
    have blank : isBlank c = false := by
      have stop := List.head?_dropWhile_not isBlank rest
      rw [left] at stop
      simpa using stop
    have nonzero : Function.update p.memory p.s 0 (p.s + 1 + n) ≠ 0 := by
      rw [(standsAt_cons.mp found).1]
      rintro rfl
      have member := (List.dropWhile_suffix isBlank (l := rest)).subset
        (left ▸ List.mem_cons_self : (0 : UInt8) ∈ rest.dropWhile isBlank)
      exact nul member
    refine ⟨{ ({ p with memory := Function.update p.memory p.s 0 }).store p.c (p.s + 1 + n) with
        c := p.c + 1, s := p.s + 1 + n - 1 }, ?_, closed, ?_, ?_⟩
    · simp only [skipped, bind, Option.bind_some, if_neg nonzero]
    · rw [afterGap, if_neg (by rw [left]; exact List.cons_ne_nil _ _)]
      dsimp only
      rw [back]
      exact ended.start
    · dsimp only
      rw [back]
      exact found

structure Left (r : Parsing) (inquote : Bool) (strings : List (List UInt8)) : Prop where
  inquote : r.inquote = inquote
  count : r.c = strings.length
  strings : ∀ k t, strings[k]? = some t → IsString r.memory (r.argv k) t
  stores : ∀ k, k ∈ r.stores ↔ k < r.c

theorem parseLoop_spec {current : Option (List UInt8)} (stands : Stands p done current)
    (later : StandsAt p.memory p.s (rest ++ [0])) (nul : 0 ∉ rest)
    (gap : current = none → rest = []) (enough : rest.length < fuel) :
    ∃ r, parseLoop fuel p = some r ∧
      Left r (p.inquote ^^ opened rest) (done ++ produced current p.inquote rest) := by
  induction fuel generalizing p done current rest with
  | zero => exact absurd enough (Nat.not_lt_zero _)
  | succ fuel ih =>
    cases rest with
    | nil =>
      obtain ⟨ended, -⟩ := standsAt_cons.mp later
      refine ⟨p, by rw [parseLoop, if_pos ended], by simp [opened], ?_, ?_, stands.stores⟩
      · rw [stands.count, List.length_append]
        cases current <;> rfl
      · intro k t found
        cases current with
        | none =>
          rw [produced, List.append_nil] at found
          exact (stands.ended k t found).1
        | some w =>
          have closed := stands.close (Nat.lt_succ_self p.s)
          rw [show Function.update p.memory p.s 0 = p.memory by
            rw [← ended, Function.update_eq_self]] at closed
          exact (closed.ended k t found).1
    | cons b rest =>
      cases current with
      | none => cases gap rfl
      | some w =>
        obtain ⟨here, behind⟩ := standsAt_cons.mp later
        rw [List.mem_cons, not_or] at nul
        rw [List.length_cons] at enough
        have nonzero : b ≠ 0 := Ne.symm nul.1
        have goes_on (p' : Parsing) {done' : List (List UInt8)} {current : Option (List UInt8)}
            {rest' : List UInt8} (turns : p.turn (fuel + 1) = some p')
            (stands' : Stands { p' with s := p'.s + 1 } done' current)
            (later' : StandsAt p'.memory (p'.s + 1) (rest' ++ [0])) (suffix : rest' <:+ rest)
            (gap' : current = none → rest' = [])
            (inquote : (p'.inquote ^^ opened rest') = (p.inquote ^^ opened (b :: rest)))
            (strings : done' ++ produced current p'.inquote rest' =
              done ++ produced (some w) p.inquote (b :: rest)) :
            ∃ r, parseLoop (fuel + 1) p = some r ∧ Left r (p.inquote ^^ opened (b :: rest))
              (done ++ produced (some w) p.inquote (b :: rest)) := by
          have shorter : rest'.length < fuel := Nat.lt_of_le_of_lt suffix.length_le (by omega)
          obtain ⟨r, returns, left⟩ := ih stands' later'
            (fun member => nul.2 (suffix.subset member)) gap' shorter
          refine ⟨r, ?_, ?_⟩
          · rw [parseLoop, if_neg (by rw [here]; exact nonzero), turns]
            exact returns
          · rw [← inquote, ← strings]
            exact left
        have added := stands.next here nonzero
        have gap_suffix : rest.dropWhile isBlank <:+ rest := List.dropWhile_suffix isBlank
        have gap_end : afterGap rest = none → rest.dropWhile isBlank = [] := by
          unfold afterGap
          split
          next done => exact fun _ => done
          next => exact fun none => by cases none
        by_cases same : b = quote
        case pos =>
          subst same
          rcases Bool.eq_false_or_eq_true p.inquote with q | q
          case inr =>
            have moved := added.drop (List.append_ne_nil_of_right_ne_nil w (List.cons_ne_nil _ _))
            refine goes_on
              (({ p with inquote := true } : Parsing).store (p.c - 1) (p.argv (p.c - 1) + 1)) ?_
              ⟨moved.count, moved.ended, moved.begun, moved.stores⟩ behind List.suffix_rfl
              (fun none => by cases none) ?_ ?_
            · rw [Parsing.turn, if_pos here]
              simp [q]
            · rw [opened_cons, q]
              simp [Parsing.store]
            · rw [produced, if_pos rfl, q, if_neg (by simp)]
              rfl
          case inl =>
            obtain ⟨p', turns, closed, stands', later'⟩ := blank_spec (fuel + 1)
              (p := { p with inquote := false, memory := Function.update p.memory p.s 32 })
              ⟨stands.count, (stands.update 32).ended, (stands.update 32).begun, stands.stores⟩ rfl
              (standsAt_update behind (.inr (Nat.lt_succ_self _))) nul.2 (by omega)
            refine goes_on p' ?_ stands' later' gap_suffix gap_end ?_ ?_
            · rw [Parsing.turn, if_pos here, ← turns]
              simp [q]
            · rw [closed, opened_dropWhile, opened_cons, q]
              simp
            · rw [closed, produced, if_pos rfl, if_pos q, ← produced_gap, List.append_assoc]
              rfl
        case neg =>
          by_cases ends : isBlank b = true ∧ p.inquote = false
          case pos =>
            obtain ⟨blank, q⟩ := ends
            obtain ⟨p', turns, closed, stands', later'⟩ := blank_spec (fuel + 1) stands q
              behind nul.2 (by omega)
            refine goes_on p' ?_ stands' later' gap_suffix gap_end ?_ ?_
            · rw [Parsing.turn, if_neg (by rwa [here]), if_pos (by rwa [here]), turns]
            · rw [closed, opened_dropWhile, opened_cons, q, beq_false_of_ne same, Bool.false_xor,
                Bool.false_xor]
            · rw [closed, q, produced, if_neg same, if_pos ⟨blank, by simp⟩, ← produced_gap,
                List.append_assoc]
              rfl
          case neg =>
            refine goes_on p ?_ added behind List.suffix_rfl (fun none => by cases none) ?_ ?_
            · rw [Parsing.turn, if_neg (by rwa [here]), here]
              split
              next blank =>
                have q : p.inquote = true := by simpa [blank] using ends
                rw [Parsing.blank, if_pos q]
              next => rfl
            · rw [opened_cons, beq_false_of_ne same, Bool.false_xor]
            · rw [produced, if_neg same, if_neg (by simpa using ends)]

end Loop

/-! ## What `parse` does -/

section Parse

variable {memory : Mem} {a fuel args : Nat} {s : List UInt8} {argv : Nat → Nat}

theorem parse_spec (argv : Nat → Nat) (args : Nat) (stands : StandsAt memory a (s ++ [0]))
    (nul : 0 ∉ s) (enough : s.length < fuel) :
    ∃ r, parse fuel argv args a memory = some (if opened s then -1 else r.c, r) ∧
      Left r (opened s) (produced (some []) false s) := by
  have start : Stands
      { memory, s := a, argv := Function.update argv 0 a, c := 1, inquote := false, stores := [0] }
      [] (some []) := by
    refine ⟨rfl, (fun k t found => by cases found), fun w same => ?_, fun k => ?_⟩
    · cases same
      exact ⟨standsAt_nil, by simp, List.not_mem_nil⟩
    · simp
  obtain ⟨r, returns, left⟩ := parseLoop_spec start stands nul (fun none => by cases none) enough
  rw [Bool.false_xor, List.nil_append] at left
  refine ⟨r, ?_, left⟩
  rw [parse, returns, ← left.inquote]
  rfl

/-- `parse` finds the tokens, and stores no more than `args` pointers, exactly if there are no more
    and either a quote is not closed, or the line begins with a token and no quote stands in a
    word. -/
theorem parse_iff (stands : StandsAt memory a (s ++ [0])) (nul : 0 ∉ s)
    (enough : s.length < fuel) :
    (∃ r, parse fuel argv args a memory = some r ∧ Parses args s r.1 r.2) ↔
      begins [] s + 1 ≤ args ∧ (s.count quote % 2 = 1 ∨
        (∃ c ∈ s.head?, isBlank c = false) ∧ ¬ QuoteInWord s) := by
  obtain ⟨r, returns, left⟩ := parse_spec argv args stands nul enough
  have length := length_produced (s := s) reached_start
  have odd : s.count quote % 2 = 1 ↔ opened s = true := by simp [opened]
  rw [Option.isSome_some, Bool.toNat_true] at length
  -- the pointers that are stored are those below the count
  have stored (enough : begins [] s + 1 ≤ args) : ∀ k ∈ r.stores, k < args := by
    intro k member
    have before := (left.stores k).mp member
    have count := left.count
    omega
  constructor
  · rintro ⟨r', returns', parses⟩
    rw [returns] at returns'
    cases returns'
    have count := left.count
    have last := parses.stores (r.c - 1) ((left.stores _).mpr (by omega))
    refine ⟨by omega, ?_⟩
    cases closed : opened s with
    | true => exact .inl (odd.mpr closed)
    | false =>
      obtain ⟨ts, tokens, returned, strings⟩ := parses.tokens (by simp [odd, closed])
      rw [closed, if_neg Bool.false_ne_true, left.count] at returned
      -- a string in memory is unique, so that the tokens are what the scan has produced
      have same : produced (some []) false s = ts := by
        refine List.ext_get (Int.ofNat_inj.mp returned) fun k here there => ?_
        exact (left.strings k _ (List.getElem?_eq_getElem here)).unique
          (strings k _ (List.getElem?_eq_getElem there))
      exact .inr ((tokens_produced_iff closed).mp (same ▸ tokens))
  · rintro ⟨enough, well⟩
    have count := left.count
    refine ⟨_, returns, stored enough, ?_, ?_, fun even => ?_⟩
    · dsimp only
      split
      next => omega
      next => omega
    · rw [odd]
      dsimp only
      split
      next unclosed => exact iff_of_true rfl unclosed
      next closed => exact iff_of_false (by omega) closed
    · have closed : opened s = false := by simpa [odd] using even
      refine ⟨_, (tokens_produced_iff closed).mpr (well.resolve_left even), ?_, left.strings⟩
      dsimp only
      rw [closed, if_neg Bool.false_ne_true, left.count]

/-- `ls "a b" ""`. -/
theorem parse_iff_quoted :
    ∃ r,
      parse 12 (fun _ => 0) 80 0 (store (fun _ => 0) 0 (text "ls \"a b\" \"\"" ++ [0])) = some r ∧
      Parses 80 (text "ls \"a b\" \"\"") r.1 r.2 := by
  refine (parse_iff standsAt_store (by decide) (by decide)).mpr ⟨by decide, .inr ⟨?_, ?_⟩⟩
  · exact ⟨108, by decide, by decide⟩
  · decide

/-- With a space in front, `ls` is the second of two tokens. -/
theorem parse_counts_leading_blank :
    ¬ ∃ r, parse 4 (fun _ => 0) 80 0 (store (fun _ => 0) 0 [32, 108, 115, 0]) = some r ∧
      Parses 80 [32, 108, 115] r.1 r.2 := by
  rintro ⟨r', returns', parses⟩
  have stands : StandsAt (store (fun _ => 0) 0 [32, 108, 115, 0]) 0 ([32, 108, 115] ++ [0]) :=
    standsAt_store
  obtain ⟨r, returns, left⟩ := parse_spec (fun _ => 0) 80 stands (by decide) (Nat.lt_succ_self 3)
  rw [returns] at returns'
  cases returns'
  obtain ⟨ts, tokens, returned, -⟩ := parses.tokens (by decide)
  have two : r.c = 2 := left.count
  have one : ts = [[108, 115]] := (produced_eq [] tokens rfl (by decide)).symm
  rw [one] at returned
  dsimp only at returned
  rw [if_neg (by decide), two] at returned
  exact absurd returned (by decide)

end Parse

end Cheops.Misc
