import Mathlib

/-! # Command lines of the POSIX shell

How `sh -c` reads a line: `scan` recognizes words, comments, quotes and operators;
`read` gives the arguments of the line if it is one simple command without redirections.
Expansions, and what POSIX leaves open, depend on the environment, also whether the shell
expands braces and `$[`.

The point of the library is `read_line_iff`: when something is put behind the blank at the
end of a harmless line, the shell reads it as one more word, equal to it, in every
environment exactly if it is `Plain`.
-/

namespace Cheops.Lib.Shell

/-! ## Scanning -/

/-- A word before expansion: its bytes, without the quotes, and whether each was quoted. -/
abbrev Word := List (UInt8 × Bool)

def unquoted (bs : List UInt8) : Word := bs.map (·, false)

/-- What a scan finds: the words of a simple command, a line whose words depend on the
    environment, or something that is not a simple command on one line. -/
inductive Reading where
  | words (ws : List Word)
  | dynamic
  | other
deriving DecidableEq, Repr

def Reading.push (w : Word) : Reading → Reading
  | .words ws => .words (w :: ws)
  | r => r

inductive Quoting where
  | none
  | single
  | double
deriving DecidableEq, Repr

inductive Class where
  | literal
  | blank
  | operator
  | single
  | double
  | backslash
  | comment
  | dynamic
deriving DecidableEq, Repr

def isNameByte (b : UInt8) : Bool :=
  (48 ≤ b && b ≤ 57) || (65 ≤ b && b ≤ 90) || b == 95 || (97 ≤ b && b ≤ 122)

/-- A `$` in front of this begins an expansion: a name, a digit, or one of `@*#?$!-({[`. -/
def startsExpansion : List UInt8 → Bool
  | [] => false
  | b :: _ => isNameByte b || [64, 42, 35, 63, 36, 33, 45, 40, 123, 91].contains b

/-- Newline and `&`, `|`, `;`, `(`, `)`, `<`, `>`. -/
def operators : List UInt8 := [10, 38, 124, 59, 40, 41, 60, 62]

/-- The class of `b`, in front of `bs`; `#` begins a comment where no word has started. -/
def classify (started : Bool) (b : UInt8) (bs : List UInt8) : Class :=
  if b = 32 ∨ b = 9 then .blank
  else if b ∈ operators then .operator
  else if b = 39 then .single
  else if b = 34 then .double
  else if b = 92 then .backslash
  else if b = 96 ∨ (b = 36 ∧ startsExpansion bs) then .dynamic
  else if b = 35 ∧ started = false then .comment
  else .literal

def extend (cur : Option Word) (b : UInt8) (quoted : Bool) : Option Word :=
  some (cur.getD [] ++ [(b, quoted)])

def scan : Quoting → Option Word → List UInt8 → Reading
  | .none, cur, [] => .words cur.toList
  | .none, cur, b :: bs =>
    match classify cur.isSome b bs with
    | .literal => scan .none (extend cur b false) bs
    | .blank =>
      match cur with
      | some w => (scan .none none bs).push w
      | none => scan .none none bs
    | .operator => .other
    | .single => scan .single (some (cur.getD [])) bs
    | .double => scan .double (some (cur.getD [])) bs
    | .backslash =>
      match bs with
      | [] => .dynamic
      | c :: bs => if c = 10 then scan .none cur bs else scan .none (extend cur c true) bs
    | .comment => if 10 ∈ bs then .other else .words cur.toList
    | .dynamic => .dynamic
  | .single, _, [] => .other
  | .single, cur, b :: bs =>
    if b = 39 then scan .none cur bs else scan .single (extend cur b true) bs
  | .double, _, [] => .other
  | .double, cur, b :: bs =>
    if b = 34 then scan .none cur bs
    else if b = 96 ∨ (b = 36 ∧ startsExpansion bs) then .dynamic
    else if b = 92 then
      match bs with
      | [] => .other
      | c :: bs =>
        if c = 10 then scan .double cur bs
        else if c ∈ [36, 96, 34, 92] then scan .double (extend cur c true) bs
        else scan .double (extend (extend cur b true) c true) bs
    else scan .double (extend cur b true) bs

/-! ## Expansion -/

/-- The bracket expression that begins behind `[` is closed. -/
def bracketCloses (w : Word) : Bool :=
  let inside := w.takeWhile (·.1 != 47)
  let members := if inside.head? = some (33, false) then inside.tail else inside
  members.tail.contains (93, false)

/-- The word is a pattern: it has an unquoted `*`, `?` or bracket expression. -/
def isPattern : Word → Bool
  | [] => false
  | (b, quoted) :: w =>
    (!quoted && (b == 42 || b == 63 || (b == 91 && bracketCloses w))) || isPattern w

/-- The brace that is opened in front can be that of an expansion: an unquoted `,` or `..` follows,
    and then an unquoted `}`. -/
def braceCloses : Word → Bool
  | [] => false
  | (b, quoted) :: w =>
    (!quoted && (b == 44 || (b == 46 && w.head? == some (46, false))) && w.contains (125, false)) ||
      braceCloses w

/-- The word has an unquoted `{` that some shells expand. -/
def isBraced : Word → Bool
  | [] => false
  | (b, quoted) :: w => (!quoted && b == 123 && braceCloses w) || isBraced w

/-- The word is subject to tilde, brace or pathname expansion. -/
def isSpecial (w : Word) : Bool := w.head? == some (126, false) || isPattern w || isBraced w

/-- What the words of a line depend on: the environment reads the lines with expansions
    in them, and expands the words that are subject to tilde, brace or pathname expansion. -/
structure Env where
  dynamic : List UInt8 → Option (List (List UInt8))
  expand : Word → List (List UInt8)

def Env.fields (env : Env) (w : Word) : List (List UInt8) :=
  if isSpecial w then env.expand w else [w.map (·.1)]

/-- `! { } case do done elif else esac fi for if in then until while`. -/
def reserved : List (List UInt8) :=
  [[33], [123], [125], [99, 97, 115, 101], [100, 111], [100, 111, 110, 101],
   [101, 108, 105, 102], [101, 108, 115, 101], [101, 115, 97, 99], [102, 105], [102, 111, 114],
   [105, 102], [105, 110], [116, 104, 101, 110], [117, 110, 116, 105, 108],
   [119, 104, 105, 108, 101]]

/-- The word can be the name of a command: it is neither reserved nor an assignment. -/
def isCommandName (w : Word) : Bool :=
  !w.contains (61, false) && !(w.all (!·.2) && reserved.contains (w.map (·.1)))

/-- The arguments of the line, the name of the command included, if it is one simple command
    without redirections. -/
def read (env : Env) (line : List UInt8) : Option (List (List UInt8)) :=
  match scan .none none line with
  | .words [] | .other => none
  | .words (w :: ws) =>
    if isCommandName w then some ((w :: ws).flatMap env.fields) else none
  | .dynamic => env.dynamic line

/-! ## Literal text -/

def AllLiteral : Bool → List UInt8 → Prop
  | _, [] => True
  | started, b :: bs => classify started b bs = .literal ∧ AllLiteral true bs

instance decidableAllLiteral : ∀ started bs, Decidable (AllLiteral started bs)
  | _, [] => inferInstanceAs (Decidable True)
  | _, _ :: bs =>
    have := decidableAllLiteral true bs
    inferInstanceAs (Decidable (_ ∧ _))

/-- The text is one word that stands for itself. -/
structure Plain (bs : List UInt8) : Prop where
  nonempty : bs ≠ []
  literal : AllLiteral false bs
  fixed : isSpecial (unquoted bs) = false

theorem plain_iff {bs : List UInt8} :
    Plain bs ↔ bs ≠ [] ∧ AllLiteral false bs ∧ isSpecial (unquoted bs) = false :=
  ⟨fun h => ⟨h.1, h.2, h.3⟩, fun h => ⟨h.1, h.2.1, h.2.2⟩⟩

instance (bs : List UInt8) : Decidable (Plain bs) := decidable_of_iff _ plain_iff.symm

def isOrdinary (b : UInt8) : Bool :=
  !([32, 9, 39, 34, 92, 96, 36, 35, 42, 63, 91, 123, 126] ++ operators).contains b

theorem allLiteral_of_ordinary (started : Bool) {bs : List UInt8}
    (h : ∀ b ∈ bs, isOrdinary b = true) : AllLiteral started bs := by
  induction bs generalizing started with
  | nil => trivial
  | cons b bs ih =>
    refine ⟨?_, ih true fun c hc => h c (List.mem_cons_of_mem _ hc)⟩
    have hb := h b List.mem_cons_self
    simp only [isOrdinary, operators, List.cons_append, List.nil_append, Bool.not_eq_true',
      List.contains_eq_mem, decide_eq_false_iff_not, List.mem_cons, List.not_mem_nil, or_false,
      not_or] at hb
    simp [classify, operators, hb]

theorem plain_of_ordinary {bs : List UInt8} (nonempty : bs ≠ [])
    (h : ∀ b ∈ bs, isOrdinary b = true) : Plain bs := by
  have hfixed : ∀ cs : List UInt8, (∀ b ∈ cs, isOrdinary b = true) →
      isPattern (unquoted cs) = false ∧ isBraced (unquoted cs) = false := by
    intro cs hcs
    induction cs with
    | nil => exact ⟨rfl, rfl⟩
    | cons b cs ih =>
      have hb := hcs b List.mem_cons_self
      have hcs' := ih fun c hc => hcs c (List.mem_cons_of_mem _ hc)
      simp [isOrdinary, operators] at hb
      simp [isPattern, isBraced, unquoted] at hcs' ⊢
      simp [hb, hcs']
  refine ⟨nonempty, allLiteral_of_ordinary false h, ?_⟩
  obtain ⟨b, bs, rfl⟩ := List.exists_cons_of_ne_nil nonempty
  have hb := h b List.mem_cons_self
  simp [isOrdinary, operators] at hb
  obtain ⟨hpattern, hbraced⟩ := hfixed _ h
  rw [isSpecial, hpattern, hbraced]
  simp [unquoted, hb]

/-! ## Harmless lines -/

@[simp] theorem length_unquoted (bs : List UInt8) : (unquoted bs).length = bs.length := by
  simp [unquoted]

@[simp] theorem map_fst_unquoted (bs : List UInt8) : (unquoted bs).map (·.1) = bs := by
  simp [unquoted, Function.comp_def]

theorem fields_unquoted (env : Env) {bs : List UInt8} (h : isSpecial (unquoted bs) = false) :
    env.fields (unquoted bs) = [bs] := by
  simp [Env.fields, h]

theorem classify_blank (started : Bool) (b : UInt8) (bs rest : List UInt8) :
    classify started b (bs ++ 32 :: rest) = classify started b bs := by
  have h : startsExpansion (bs ++ 32 :: rest) = startsExpansion bs := by
    cases bs with
    | nil => rfl
    | cons => rfl
  rw [classify, classify, h]

theorem scan_cons (cur : Option Word) (b : UInt8) (bs : List UInt8) :
    scan .none cur (b :: bs) =
      match classify cur.isSome b bs with
      | .literal => scan .none (extend cur b false) bs
      | .blank =>
        match cur with
        | some w => (scan .none none bs).push w
        | none => scan .none none bs
      | .operator => .other
      | .single => scan .single (some (cur.getD [])) bs
      | .double => scan .double (some (cur.getD [])) bs
      | .backslash =>
        match bs with
        | [] => .dynamic
        | c :: bs => if c = 10 then scan .none cur bs else scan .none (extend cur c true) bs
      | .comment => if 10 ∈ bs then .other else .words cur.toList
      | .dynamic => .dynamic := by
  rw [scan.eq_def]

theorem scan_literal (cur : Option Word) {b : UInt8} {bs : List UInt8}
    (h : classify cur.isSome b bs = .literal) :
    scan .none cur (b :: bs) = scan .none (extend cur b false) bs := by
  rw [scan_cons, h]

/-- Literal text is added to the current word, which ends at a blank. -/
theorem scan_to_blank {w : Word} {bs : List UInt8} (rest : List UInt8)
    (h : AllLiteral true bs) :
    scan .none (some w) (bs ++ 32 :: rest) = (scan .none none rest).push (w ++ unquoted bs) := by
  induction bs generalizing w with
  | nil =>
    have hblank : classify true 32 rest = .blank := by simp [classify]
    simp [scan_cons, hblank, unquoted]
  | cons b bs ih =>
    rw [List.cons_append, scan_literal (some w) (by rw [classify_blank]; exact h.1), extend, ih h.2]
    simp [unquoted]

/-- Literal text up to the end of the line. -/
theorem scan_to_end {w : Word} {bs : List UInt8} (h : AllLiteral true bs) :
    scan .none (some w) bs = .words [w ++ unquoted bs] := by
  induction bs generalizing w with
  | nil => simp [scan, unquoted]
  | cons b bs ih =>
    rw [scan_literal (some w) h.1, extend, ih h.2]
    simp [unquoted]

theorem scan_word {bs : List UInt8} (rest : List UInt8) (nonempty : bs ≠ [])
    (h : AllLiteral false bs) :
    scan .none none (bs ++ 32 :: rest) = (scan .none none rest).push (unquoted bs) := by
  obtain ⟨b, bs, rfl⟩ := List.exists_cons_of_ne_nil nonempty
  rw [List.cons_append, scan_literal none (by rw [classify_blank]; exact h.1), extend,
    scan_to_blank rest h.2]
  rfl

theorem scan_last {bs : List UInt8} (nonempty : bs ≠ []) (h : AllLiteral false bs) :
    scan .none none bs = .words [unquoted bs] := by
  obtain ⟨b, bs, rfl⟩ := List.exists_cons_of_ne_nil nonempty
  rw [scan_literal none h.1, extend, scan_to_end h.2]
  rfl

def line (w : List UInt8) (ws : List (List UInt8)) : List UInt8 := w ++ ws.flatMap (32 :: ·)

theorem line_append (w : List UInt8) (ws vs : List (List UInt8)) :
    line w (ws ++ vs) = line w ws ++ vs.flatMap (32 :: ·) := by
  simp [line]

theorem length_line (w : List UInt8) (ws : List (List UInt8)) :
    (line w ws).length + 1 = ((w :: ws).map (·.length + 1)).sum := by
  have hws : (ws.flatMap (32 :: ·)).length = (ws.map (·.length + 1)).sum := by
    rw [List.length_flatMap]
    rfl
  rw [line, List.length_append, hws, List.map_cons, List.sum_cons]
  omega

theorem scan_line {w : List UInt8} {ws : List (List UInt8)} (rest : List UInt8)
    (h : ∀ v ∈ w :: ws, Plain v) :
    scan .none none (line w ws ++ 32 :: rest) =
      ((w :: ws).map unquoted).foldr Reading.push (scan .none none rest) := by
  induction ws generalizing w with
  | nil =>
    have hw := h w (by simp)
    simp only [line, List.flatMap_nil, List.append_nil]
    rw [scan_word rest hw.nonempty hw.literal]
    rfl
  | cons v ws ih =>
    have hw := h w (by simp)
    have hsplit : line w (v :: ws) ++ 32 :: rest = w ++ 32 :: (line v ws ++ 32 :: rest) := by
      simp [line]
    rw [hsplit, scan_word _ hw.nonempty hw.literal, ih fun u hu => h u (List.mem_cons_of_mem _ hu)]
    rfl

/-! ## Text that is not literal -/

def total (ws : List Word) : Nat := (ws.map List.length).sum

@[simp] theorem total_toList (cur : Option Word) : total cur.toList = (cur.getD []).length := by
  cases cur <;> simp [total]

@[simp] theorem total_cons (w : Word) (ws : List Word) :
    total (w :: ws) = w.length + total ws := by simp [total]

@[simp] theorem length_extend (cur : Option Word) (b : UInt8) (quoted : Bool) :
    ((extend cur b quoted).getD []).length = (cur.getD []).length + 1 := by simp [extend]

theorem push_eq_words {w : Word} {r : Reading} {ws : List Word} (h : r.push w = .words ws) :
    ∃ vs, r = .words vs ∧ ws = w :: vs := by
  cases r with
  | words vs => exact ⟨vs, rfl, (Reading.words.inj h).symm⟩
  | dynamic => cases h
  | other => cases h

/-- A scan adds no bytes to words, and takes away at least the quote it waits for. -/
theorem scan_total {q : Quoting} {cur : Option Word} {bs : List UInt8} {ws : List Word}
    (h : scan q cur bs = .words ws) :
    total ws + (if q = .none then 0 else 1) ≤ (cur.getD []).length + bs.length := by
  fun_induction scan q cur bs generalizing ws with
  | case1 cur => cases h; simp
  | case3 b bs w hblank ih =>
    obtain ⟨vs, hvs, rfl⟩ := push_eq_words h
    have := ih hvs
    simp at this ⊢
    omega
  | case12 cur b bs hcomment hline => cases h; simp
  | case5 | case8 | case11 | case13 | case14 | case17 | case19 | case20 => cases h
  | _ =>
    rename_i ih
    have := ih h
    simp at this ⊢
    omega

/-- A scan that keeps all bytes has met nothing but literal text. -/
theorem allLiteral_of_total {cur : Option Word} {bs : List UInt8} {ws : List Word}
    (h : scan .none cur bs = .words ws) (htotal : total ws = (cur.getD []).length + bs.length) :
    AllLiteral cur.isSome bs := by
  induction bs generalizing cur with
  | nil => trivial
  | cons b bs ih =>
    rw [List.length_cons] at htotal
    cases hclass : classify cur.isSome b bs with
    | literal =>
      rw [scan_literal _ hclass] at h
      exact ⟨hclass, ih h (by rw [length_extend]; omega)⟩
    | blank =>
      rw [scan_cons, hclass] at h
      cases cur with
      | none => have := scan_total h; simp at this htotal; omega
      | some w =>
        obtain ⟨vs, hvs, rfl⟩ := push_eq_words h
        have := scan_total hvs
        simp at this htotal
        omega
    | single | double =>
      rw [scan_cons, hclass] at h
      have := scan_total h
      simp at this
      omega
    | backslash =>
      rw [scan_cons, hclass] at h
      cases bs with
      | nil => cases h
      | cons c bs =>
        simp only at h
        split at h
        all_goals
          have := scan_total h
          simp at this htotal
          omega
    | comment =>
      rw [scan_cons, hclass] at h
      simp only at h
      split at h
      · cases h
      · cases h
        rw [total_toList] at htotal
        omega
    | operator | dynamic =>
      rw [scan_cons, hclass] at h
      cases h

/-! ## One more word -/

/-- The environment in which lines with expansions cannot be read and special words vanish. -/
def bareEnv : Env where
  dynamic := fun _ => none
  expand := fun _ => []

theorem sum_length_fields_le (ws : List Word) :
    ((ws.flatMap bareEnv.fields).map List.length).sum ≤ total ws := by
  induction ws with
  | nil => simp [total]
  | cons w ws ih =>
    have hw : ((bareEnv.fields w).map List.length).sum ≤ w.length := by
      unfold Env.fields
      split <;> simp [bareEnv]
    rw [List.flatMap_cons, List.map_append, List.sum_append, total_cons]
    omega

/-- If the words of a scan of `bs` become the one field `bs` there, then `bs` is plain. -/
theorem plain_of_bareEnv {bs : List UInt8} {ws : List Word} (h : scan .none none bs = .words ws)
    (hfields : ws.flatMap bareEnv.fields = [bs]) : Plain bs := by
  have hnonempty : bs ≠ [] := by
    rintro rfl
    obtain rfl : [] = ws := Reading.words.inj h
    cases hfields
  have hliteral : AllLiteral false bs := by
    have hle := scan_total h
    have hge := sum_length_fields_le ws
    rw [hfields] at hge
    simp at hle hge
    exact allLiteral_of_total h (by simp; omega)
  refine ⟨hnonempty, hliteral, ?_⟩
  rw [scan_last hnonempty hliteral] at h
  obtain rfl := Reading.words.inj h
  cases hspecial : isSpecial (unquoted bs) with
  | false => rfl
  | true => simp [Env.fields, hspecial, bareEnv] at hfields

theorem flatMap_fields (env : Env) {ws : List (List UInt8)} (h : ∀ w ∈ ws, Plain w) :
    (ws.map unquoted).flatMap env.fields = ws := by
  induction ws with
  | nil => rfl
  | cons w ws ih =>
    rw [List.map_cons, List.flatMap_cons, fields_unquoted env (h w (by simp)).fixed,
      ih fun v hv => h v (List.mem_cons_of_mem _ hv)]
    rfl

theorem foldr_push (us : List Word) (r : Reading) :
    us.foldr Reading.push r =
      match r with
      | .words vs => .words (us ++ vs)
      | r => r := by
  induction us with
  | nil => cases r <;> rfl
  | cons u us ih => rw [List.foldr_cons, ih]; cases r <;> rfl

/-- What follows a harmless line and a blank is read on its own. -/
theorem read_line_append {w : List UInt8} {ws : List (List UInt8)} (env : Env) (bs : List UInt8)
    (h : ∀ v ∈ w :: ws, Plain v) (hname : isCommandName (unquoted w) = true) :
    read env (line w ws ++ 32 :: bs) =
      match scan .none none bs with
      | .words vs => some (w :: ws ++ vs.flatMap env.fields)
      | .dynamic => env.dynamic (line w ws ++ 32 :: bs)
      | .other => none := by
  rw [read, scan_line bs h, foldr_push]
  cases scan .none none bs with
  | words vs =>
    have hfields := flatMap_fields env h
    rw [List.map_cons] at hfields
    simp only [List.map_cons, List.cons_append, hname, if_true]
    rw [← List.cons_append, List.flatMap_append, hfields, List.cons_append]
  | dynamic => rfl
  | other => rfl

/-- The text behind a harmless line and a blank is read as one word, equal to it, in every
    environment exactly if it is plain. -/
theorem read_line_iff {w : List UInt8} {ws : List (List UInt8)} {bs : List UInt8}
    (h : ∀ v ∈ w :: ws, Plain v) (hname : isCommandName (unquoted w) = true) :
    (∀ env, read env (line w ws ++ 32 :: bs) = some (w :: ws ++ [bs])) ↔ Plain bs := by
  constructor
  · intro hread
    have hbare := hread bareEnv
    rw [read_line_append bareEnv bs h hname] at hbare
    cases hscan : scan .none none bs with
    | words vs =>
      rw [hscan] at hbare
      exact plain_of_bareEnv hscan (List.append_cancel_left (Option.some.inj hbare))
    | dynamic => rw [hscan] at hbare; cases hbare
    | other => rw [hscan] at hbare; cases hbare
  · intro hplain env
    rw [read_line_append env bs h hname, scan_last hplain.nonempty hplain.literal]
    simp [fields_unquoted env hplain.fixed]

/-- `{80,x}`, which is two words for some shells. -/
example : ¬ Plain [123, 56, 48, 44, 120, 125] := by decide

/-- A harmless line is read as its words. -/
theorem read_line {w : List UInt8} {ws : List (List UInt8)} (env : Env)
    (h : ∀ v ∈ w :: ws, Plain v) (hname : isCommandName (unquoted w) = true) :
    read env (line w ws) = some (w :: ws) := by
  rcases List.eq_nil_or_concat ws with rfl | ⟨vs, v, rfl⟩
  · have hw := h w (by simp)
    simp [line, read, scan_last hw.nonempty hw.literal, hname, fields_unquoted env hw.fixed]
  · rw [List.concat_eq_append] at h ⊢
    have hline : line w (vs ++ [v]) = line w vs ++ 32 :: v := by simp [line]
    rw [hline]
    exact (read_line_iff (fun u hu => h u (by simp at hu ⊢; tauto)) hname).mpr (h v (by simp)) env

end Cheops.Lib.Shell
