import Cheops.Lib.Bytes

/-! # The tokens of a command line

The grammar that the comment in `parse` states, and the strings that its scan leaves behind.  The
scan keeps the string that has been begun; there is one from the start on, also where the line
begins with a blank, and an opening quote takes the first character away from it, which in the
middle of a word is not the quote.

`produced_tokens` and `tokens_produced` say where the two are the same.
-/

namespace Cheops.Misc

def quote : UInt8 := 34

def isBlank (c : UInt8) : Bool := c == 32 || c == 9

/-! ## Grammar -/

inductive Tokens : List UInt8 → List (List UInt8) → Prop
  | nil : Tokens [] []
  | blank {c s ts} : isBlank c = true → Tokens s ts → Tokens (c :: s) ts
  | quoted {run s ts} : quote ∉ run → Tokens s ts →
      Tokens (quote :: (run ++ quote :: s)) (run :: ts)
  | word {w s ts} : w ≠ [] → (∀ c ∈ w, isBlank c = false ∧ c ≠ quote) →
      (∀ c ∈ s.head?, isBlank c = true ∨ c = quote) → Tokens s ts → Tokens (w ++ s) (w :: ts)

/-! ## The scan -/

/-- The strings of a line from here on, where `current` is what the string that has been begun has
    so far. -/
def produced : Option (List UInt8) → Bool → List UInt8 → List (List UInt8)
  | none, _, [] => []
  | some current, _, [] => [current]
  | none, q, c :: rest =>
    if isBlank c then produced none q rest
    else if c = quote then produced (some []) true rest
    else produced (some [c]) false rest
  | some current, q, c :: rest =>
    if c = quote then
      if q then current :: produced none false rest
      else produced (some (current ++ [quote]).tail) true rest
    else if isBlank c ∧ ¬ q then current :: produced none false rest
    else produced (some (current ++ [c])) q rest

/-! ## Places in a line -/

/-- Behind `before` a quote would be a closing one. -/
def opened (before : List UInt8) : Bool := before.count quote % 2 == 1

def separates (c : UInt8) : Bool := isBlank c || c == quote

def separated (before : List UInt8) : Bool := before.getLast?.any separates

def inWord (before : List UInt8) : Bool := before.getLast?.any fun c => !separates c

/-- An opening quote stands in the middle of a word. -/
def QuoteInWord (s : List UInt8) : Prop :=
  ∃ before after, s = before ++ quote :: after ∧ opened before = false ∧ inWord before = true

/-- At how many places of `after` a string begins behind an end: outside of quotes, and not at a
    blank. -/
def begins : List UInt8 → List UInt8 → Nat
  | _, [] => 0
  | before, c :: after =>
    (if isBlank c = false ∧ opened before = false ∧ separated before = true then 1 else 0) +
      begins (before ++ [c]) after

theorem isBlank_quote : isBlank quote = false := by decide

section Places

variable {before after : List UInt8} {c : UInt8}

theorem opened_append (before after : List UInt8) :
    opened (before ++ after) = (opened before ^^ opened after) := by
  unfold opened
  rw [List.count_append, Nat.add_mod]
  rcases Nat.mod_two_eq_zero_or_one (before.count quote) with even | odd <;>
    rcases Nat.mod_two_eq_zero_or_one (after.count quote) with even' | odd' <;> simp [*]

theorem opened_of_not_mem (simple : quote ∉ after) : opened after = false := by
  rw [opened, List.count_eq_zero.mpr simple]
  rfl

theorem opened_concat : opened (before ++ [c]) = (opened before ^^ (c == quote)) := by
  rw [opened_append]
  congr 1
  by_cases same : c = quote
  case pos =>
    subst same
    rfl
  case neg => rw [opened_of_not_mem (by simpa using Ne.symm same), beq_false_of_ne same]

theorem opened_cons : opened (c :: after) = ((c == quote) ^^ opened after) := by
  have single : opened ([] ++ [c]) = (opened [] ^^ (c == quote)) := opened_concat
  rw [show opened [] = false from rfl, Bool.false_xor, List.nil_append] at single
  rw [← single, ← opened_append]
  rfl

theorem separated_concat : separated (before ++ [c]) = separates c := by
  simp [separated]

theorem inWord_concat : inWord (before ++ [c]) = !separates c := by
  simp [inWord]

theorem separates_of_isBlank (blank : isBlank c = true) : separates c = true := by
  rw [separates, blank, Bool.true_or]

theorem separates_eq_false (other : c ≠ quote) (word : isBlank c = false) :
    separates c = false := by
  rw [separates, word, beq_false_of_ne other]
  rfl

theorem ne_quote_of_isBlank (blank : isBlank c = true) : c ≠ quote := by
  rintro rfl
  exact absurd blank (by decide)

theorem separated_of_inWord (word : inWord before = true) : separated before = false := by
  unfold inWord at word
  unfold separated
  cases last : before.getLast? with
  | none => rfl
  | some c => simpa [last] using word

/-- `QuoteInWord` for what follows `before`. -/
def QuoteInWordFrom (before after : List UInt8) : Prop :=
  ∃ b a, after = b ++ quote :: a ∧ opened (before ++ b) = false ∧ inWord (before ++ b) = true

theorem quoteInWordFrom_nil : ¬ QuoteInWordFrom before [] := by
  rintro ⟨b, a, split, -⟩
  simp at split

theorem quoteInWordFrom_cons :
    QuoteInWordFrom before (c :: after) ↔
      (c = quote ∧ opened before = false ∧ inWord before = true) ∨
        QuoteInWordFrom (before ++ [c]) after := by
  constructor
  · rintro ⟨b, a, split, closed, word⟩
    cases b with
    | nil =>
      rw [List.append_nil] at closed word
      exact .inl ⟨(List.cons.inj split).1, closed, word⟩
    | cons d b =>
      obtain ⟨rfl, later⟩ := List.cons.inj split
      exact .inr ⟨b, a, later, by simpa using closed, by simpa using word⟩
  · rintro (⟨rfl, closed, word⟩ | ⟨b, a, rfl, closed, word⟩)
    · exact ⟨[], after, rfl, by rwa [List.append_nil], by rwa [List.append_nil]⟩
    · exact ⟨c :: b, a, rfl, by simpa using closed, by simpa using word⟩

theorem quoteInWord_iff : QuoteInWord after ↔ QuoteInWordFrom [] after := by
  simp [QuoteInWord, QuoteInWordFrom]

instance decidableQuoteInWordFrom : (before after : List UInt8) →
    Decidable (QuoteInWordFrom before after)
  | _, [] => isFalse quoteInWordFrom_nil
  | before, c :: after =>
    have := decidableQuoteInWordFrom (before ++ [c]) after
    decidable_of_iff _ quoteInWordFrom_cons.symm

instance (s : List UInt8) : Decidable (QuoteInWord s) := decidable_of_iff _ quoteInWord_iff.symm

theorem quoteInWordFrom_append {b : List UInt8} (later : QuoteInWordFrom (before ++ b) after) :
    QuoteInWordFrom before (b ++ after) := by
  obtain ⟨b', a, rfl, closed, word⟩ := later
  exact ⟨b ++ b', a, (List.append_assoc ..).symm, by rwa [← List.append_assoc],
    by rwa [← List.append_assoc]⟩

def Reached (before : List UInt8) : Option (List UInt8) → Bool → Prop
  | none, q => q = false ∧ opened before = false ∧ separated before = true
  | some current, q => opened before = q ∧
      (q = false → separated before = false ∧ (inWord before = true ↔ current ≠ []))

theorem reached_start : Reached [] (some []) false := by simp [Reached, opened, separated, inWord]

/-- What the scan does with a character: the state behind it, and the string that it has ended. -/
inductive Reads : Option (List UInt8) → Bool → UInt8 → Option (List UInt8) → Bool →
    Option (List UInt8) → Prop
  | gap {q c} : isBlank c = true → Reads none q c none q none
  | opens {q} : Reads none q quote (some []) true none
  | starts {q c} : isBlank c = false → c ≠ quote → Reads none q c (some [c]) false none
  | closes {w} : Reads (some w) true quote none false (some w)
  | opensInside {w} : Reads (some w) false quote (some (w ++ [quote]).tail) true none
  | ends {w c} : isBlank c = true → Reads (some w) false c none false (some w)
  | inRun {w c} : c ≠ quote → Reads (some w) true c (some (w ++ [c])) true none
  | inWord {w c} : isBlank c = false → c ≠ quote →
      Reads (some w) false c (some (w ++ [c])) false none

theorem produced_cons (current : Option (List UInt8)) (q : Bool) (c : UInt8) (s : List UInt8) :
    ∃ current' q' out, Reads current q c current' q' out ∧
      produced current q (c :: s) = out.toList ++ produced current' q' s := by
  cases current with
  | none =>
    cases blank : isBlank c with
    | true => exact ⟨_, _, _, .gap blank, by rw [produced, if_pos blank]; rfl⟩
    | false =>
      by_cases same : c = quote
      case pos =>
        subst same
        exact ⟨_, _, _, .opens, by rw [produced, if_neg (by simp [blank]), if_pos rfl]; rfl⟩
      case neg =>
        refine ⟨_, _, _, .starts blank same, ?_⟩
        rw [produced, if_neg (by simp [blank]), if_neg same]
        rfl
  | some w =>
    by_cases same : c = quote
    case pos =>
      subst same
      cases q with
      | true => exact ⟨_, _, _, .closes, by rw [produced, if_pos rfl, if_pos rfl]; rfl⟩
      | false => exact ⟨_, _, _, .opensInside, by rw [produced, if_pos rfl, if_neg (by simp)]; rfl⟩
    case neg =>
      cases q with
      | true => exact ⟨_, _, _, .inRun same, by rw [produced, if_neg same, if_neg (by simp)]; rfl⟩
      | false =>
        cases blank : isBlank c with
        | true =>
          exact ⟨_, _, _, .ends blank, by rw [produced, if_neg same, if_pos ⟨blank, by simp⟩]; rfl⟩
        | false =>
          refine ⟨_, _, _, .inWord blank same, ?_⟩
          rw [produced, if_neg same, if_neg (by simp [blank])]
          rfl

variable {current current' out : Option (List UInt8)} {q q' : Bool}

theorem Reached.reads (reached : Reached before current q)
    (reads : Reads current q c current' q' out) : Reached (before ++ [c]) current' q' := by
  cases reads with
  | gap blank =>
    obtain ⟨rfl, closed, -⟩ := reached
    refine ⟨rfl, ?_, by rw [separated_concat, separates_of_isBlank blank]⟩
    rw [opened_concat, closed, beq_false_of_ne (ne_quote_of_isBlank blank)]
    rfl
  | opens =>
    obtain ⟨rfl, closed, -⟩ := reached
    refine ⟨?_, fun open_ => by cases open_⟩
    rw [opened_concat, closed]
    rfl
  | starts word other =>
    obtain ⟨rfl, closed, -⟩ := reached
    refine ⟨?_, fun _ => ⟨?_, ?_⟩⟩
    · rw [opened_concat, closed, beq_false_of_ne other]
      rfl
    · rw [separated_concat, separates_eq_false other word]
    · simp [inWord_concat, separates_eq_false other word]
  | closes =>
    refine ⟨rfl, ?_, by rw [separated_concat]; decide⟩
    rw [opened_concat, reached.1]
    rfl
  | opensInside =>
    refine ⟨?_, fun open_ => by cases open_⟩
    rw [opened_concat, reached.1]
    rfl
  | ends blank =>
    refine ⟨rfl, ?_, by rw [separated_concat, separates_of_isBlank blank]⟩
    rw [opened_concat, reached.1, beq_false_of_ne (ne_quote_of_isBlank blank)]
    rfl
  | inRun other =>
    refine ⟨?_, fun open_ => by cases open_⟩
    rw [opened_concat, reached.1, beq_false_of_ne other]
    rfl
  | inWord word other =>
    refine ⟨?_, fun _ => ⟨?_, ?_⟩⟩
    · rw [opened_concat, reached.1, beq_false_of_ne other]
      rfl
    · rw [separated_concat, separates_eq_false other word]
    · simp [inWord_concat, separates_eq_false other word]

end Places

/-! ## What the scan produces -/

section Produced

variable {before s : List UInt8} {current : Option (List UInt8)} {q : Bool}
  {ts : List (List UInt8)}

/-- There is a string for every place where one begins, and the one that has been begun. -/
theorem length_produced (reached : Reached before current q) :
    (produced current q s).length = begins before s + current.isSome.toNat := by
  induction s generalizing before current q with
  | nil => cases current <;> rfl
  | cons c s ih =>
    obtain ⟨current', q', out, reads, eq⟩ := produced_cons current q c s
    rw [eq, List.length_append, ih (reached.reads reads), begins]
    cases reads with
    | gap blank => simp [blank]
    | opens => simp [isBlank_quote, reached.2.1, reached.2.2, Nat.add_comm]
    | starts word => simp [word, reached.2.1, reached.2.2, Nat.add_comm]
    | closes => simp [reached.1, Nat.add_comm]
    | opensInside => simp [reached.2 rfl]
    | ends blank => simp [blank, Nat.add_comm]
    | inRun => simp [reached.1]
    | inWord => simp [reached.2 rfl]

/-- A quote in a word stays in the string. -/
theorem quote_mem_produced (reached : Reached before current q)
    (inside : (q = true ∧ ∃ w, current = some w ∧ quote ∈ w) ∨ QuoteInWordFrom before s) :
    ∃ t ∈ produced current q s, quote ∈ t := by
  induction s generalizing before current q with
  | nil =>
    rcases inside with ⟨-, w, rfl, member⟩ | none
    · exact ⟨w, List.mem_singleton_self w, member⟩
    · exact absurd none quoteInWordFrom_nil
  | cons c s ih =>
    obtain ⟨current', q', out, reads, eq⟩ := produced_cons current q c s
    rw [eq]
    have later (h : (q' = true ∧ ∃ w, current' = some w ∧ quote ∈ w) ∨
        QuoteInWordFrom (before ++ [c]) s) :
        ∃ t ∈ out.toList ++ produced current' q' s, quote ∈ t := by
      obtain ⟨t, member, quoted⟩ := ih (reached.reads reads) h
      exact ⟨t, List.mem_append_right _ member, quoted⟩
    rcases inside with ⟨rfl, w, rfl, member⟩ | here
    · cases reads with
      | closes => exact ⟨w, List.mem_cons_self, member⟩
      | inRun other => exact later (.inl ⟨rfl, _, rfl, List.mem_append_left _ member⟩)
    · rcases quoteInWordFrom_cons.mp here with ⟨rfl, closed, word⟩ | here
      · cases reads with
        | gap blank => exact absurd blank (by decide)
        | opens => exact absurd reached.2.2 (by simp [separated_of_inWord word])
        | starts _ other => exact absurd rfl other
        | closes => exact absurd reached.1 (by simp [closed])
        | @opensInside w =>
          have nonempty : w ≠ [] := (reached.2 rfl).2.mp word
          refine later (.inl ⟨rfl, _, rfl, ?_⟩)
          cases w with
          | nil => exact absurd rfl nonempty
          | cons x w => simp
        | ends blank => exact absurd blank (by decide)
        | inRun other => exact absurd rfl other
        | inWord _ other => exact absurd rfl other
      · exact later (.inr here)

/-- What has been read of the string that has been begun, its quote with it. -/
def Pending : Option (List UInt8) → Bool → List UInt8 → Prop
  | none, _, front => front = []
  | some w, true, front => front = quote :: w ∧ quote ∉ w
  | some w, false, front => front = w ∧ w ≠ [] ∧ ∀ c ∈ w, isBlank c = false ∧ c ≠ quote

/-- Where no quote stands in a word, the scan produces the tokens. -/
theorem tokens_produced {front : List UInt8} (reached : Reached before current q)
    (pending : Pending current q front) (closed : opened (before ++ s) = false)
    (words : ¬ QuoteInWordFrom before s) : Tokens (front ++ s) (produced current q s) := by
  induction s generalizing before current q front with
  | nil =>
    rw [List.append_nil] at closed
    match current, q with
    | none, _ =>
      obtain rfl := pending
      exact .nil
    | some w, true => exact absurd reached.1 (by simp [closed])
    | some w, false =>
      obtain ⟨rfl, nonempty, plain⟩ := pending
      exact .word nonempty plain (fun _ none => by cases none) .nil
  | cons c s ih =>
    obtain ⟨current', q', out, reads, eq⟩ := produced_cons current q c s
    rw [quoteInWordFrom_cons, not_or] at words
    rw [List.append_cons] at closed
    -- every character keeps `Pending`, and what is left is the induction hypothesis
    have later {front : List UInt8} (pending : Pending current' q' front) :
        Tokens (front ++ s) (produced current' q' s) :=
      ih (reached.reads reads) pending closed words.2
    rw [eq]
    cases reads with
    | gap blank =>
      obtain rfl := pending
      exact .blank blank (later rfl)
    | opens =>
      obtain rfl := pending
      exact later ⟨rfl, List.not_mem_nil⟩
    | starts word other =>
      obtain rfl := pending
      have begun : Pending (some [c]) false [c] :=
        ⟨rfl, List.cons_ne_nil _ _, by simp [word, other]⟩
      exact later begun
    | closes =>
      obtain ⟨rfl, run⟩ := pending
      exact .quoted run (later rfl)
    | opensInside =>
      obtain ⟨-, nonempty, -⟩ := pending
      exact absurd ⟨rfl, reached.1, (reached.2 rfl).2.mpr nonempty⟩ words.1
    | ends blank =>
      obtain ⟨rfl, nonempty, plain⟩ := pending
      exact .word nonempty plain (by simp [blank]) (.blank blank (later rfl))
    | @inRun w _ other =>
      obtain ⟨rfl, run⟩ := pending
      have longer : Pending (some (w ++ [c])) true (quote :: (w ++ [c])) :=
        ⟨rfl, by simp [run, Ne.symm other]⟩
      simpa using later longer
    | @inWord w _ word other =>
      obtain ⟨rfl, -, plain⟩ := pending
      have longer : Pending (some (front ++ [c])) false (front ++ [c]) := by
        refine ⟨rfl, by simp, fun d member => ?_⟩
        rcases List.mem_append.mp member with early | last
        · exact plain d early
        · rw [List.mem_singleton.mp last]
          exact ⟨word, other⟩
      simpa using later longer

theorem produced_run {w run : List UInt8} (simple : quote ∉ run) :
    produced (some w) true (run ++ quote :: s) = (w ++ run) :: produced none false s := by
  induction run generalizing w with
  | nil => rw [List.nil_append, List.append_nil, produced, if_pos rfl, if_pos rfl]
  | cons c run ih =>
    rw [List.mem_cons, not_or] at simple
    rw [List.cons_append, produced, if_neg (Ne.symm simple.1), if_neg (by simp), ih simple.2,
      List.append_assoc]
    rfl

theorem produced_word {w v : List UInt8} (plain : ∀ c ∈ v, isBlank c = false ∧ c ≠ quote) :
    produced (some w) false (v ++ s) = produced (some (w ++ v)) false s := by
  induction v generalizing w with
  | nil => rw [List.nil_append, List.append_nil]
  | cons c v ih =>
    obtain ⟨word, other⟩ := plain c List.mem_cons_self
    rw [List.cons_append, produced, if_neg other, if_neg (by simp [word]),
      ih fun d member => plain d (List.mem_cons_of_mem _ member), List.append_assoc]
    rfl

/-- The tokens of such a line are no others. -/
theorem produced_eq (before : List UInt8) (tokens : Tokens s ts) (closed : opened before = false)
    (words : ¬ QuoteInWordFrom before s) : produced none false s = ts := by
  induction tokens generalizing before with
  | nil => rfl
  | @blank c s ts blank tokens ih =>
    rw [produced, if_pos blank]
    refine ih (before ++ [c]) ?_ fun later => words (quoteInWordFrom_append later)
    rw [opened_concat, closed, beq_false_of_ne (ne_quote_of_isBlank blank)]
    rfl
  | @quoted run s ts simple tokens ih =>
    rw [produced, if_neg (by simp [isBlank_quote]), if_pos rfl, produced_run simple,
      List.nil_append]
    congr 1
    refine ih (before ++ (quote :: (run ++ [quote]))) ?_ fun later => words ?_
    · have run_closed : opened (quote :: (run ++ [quote])) = false := by
        rw [show quote :: (run ++ [quote]) = [quote] ++ run ++ [quote] from rfl, opened_append,
          opened_append, opened_of_not_mem simple]
        rfl
      rw [opened_append, closed, run_closed]
      rfl
    · simpa using quoteInWordFrom_append later
  | @word w s ts nonempty plain stops tokens ih =>
    have simple : quote ∉ w := fun member => (plain quote member).2 rfl
    have closed' : opened (before ++ w) = false := by
      rw [opened_append, closed, opened_of_not_mem simple]
      rfl
    -- the scan of the word ends where the word does: at a blank, a quote or the end
    have rest := ih _ closed' fun later => words (quoteInWordFrom_append later)
    have read : produced none false (w ++ s) = produced (some w) false s := by
      cases w with
      | nil => exact absurd rfl nonempty
      | cons c w =>
        obtain ⟨word, other⟩ := plain c List.mem_cons_self
        rw [List.cons_append, produced, if_neg (by simp [word]), if_neg other,
          produced_word fun d member => plain d (List.mem_cons_of_mem _ member)]
        rfl
    rw [read]
    cases s with
    | nil =>
      rw [← rest]
      rfl
    | cons c s =>
      rcases stops c rfl with blank | rfl
      · rw [produced, if_neg (ne_quote_of_isBlank blank), if_pos ⟨blank, by simp⟩]
        rw [produced, if_pos blank] at rest
        rw [rest]
      · refine absurd ⟨w, s, rfl, closed', ?_⟩ words
        unfold inWord
        rw [List.getLast?_append_of_ne_nil _ nonempty, List.getLast?_eq_some_getLast nonempty]
        obtain ⟨word, other⟩ := plain _ (List.getLast_mem nonempty)
        simp [separates_eq_false other word]

theorem Tokens.quote_not_mem (tokens : Tokens s ts) : ∀ t ∈ ts, quote ∉ t := by
  induction tokens with
  | nil => exact fun t none => by cases none
  | blank _ _ ih => exact ih
  | quoted simple _ ih =>
    intro t member
    rcases List.mem_cons.mp member with rfl | later
    · exact simple
    · exact ih t later
  | word _ plain _ _ ih =>
    intro t member
    rcases List.mem_cons.mp member with rfl | later
    · exact fun member => (plain quote member).2 rfl
    · exact ih t later

/-- The scan produces the tokens of a line whose quotes are all closed exactly if it begins with
    one and no quote stands in a word. -/
theorem tokens_produced_iff (closed : opened s = false) :
    Tokens s (produced (some []) false s) ↔
      (∃ c ∈ s.head?, isBlank c = false) ∧ ¬ QuoteInWord s := by
  rw [quoteInWord_iff]
  constructor
  · intro tokens
    have words : ¬ QuoteInWordFrom [] s := by
      intro inside
      obtain ⟨t, member, quoted⟩ := quote_mem_produced reached_start (.inr inside)
      exact tokens.quote_not_mem t member quoted
    refine ⟨?_, words⟩
    cases s with
    | nil => exact absurd (produced_eq [] tokens rfl words) (by decide)
    | cons c s =>
      refine ⟨c, rfl, ?_⟩
      -- in front of a blank there would be an empty string too many
      by_contra blank
      rw [Bool.not_eq_false] at blank
      have first : produced (some []) false (c :: s) = [] :: produced none false s := by
        rw [produced, if_neg (ne_quote_of_isBlank blank), if_pos ⟨blank, by simp⟩]
      have same := produced_eq [] tokens rfl words
      rw [first, produced, if_pos blank] at same
      exact absurd (congrArg List.length same) (by simp)
  · rintro ⟨⟨c, head, word⟩, words⟩
    cases s with
    | nil => cases head
    | cons d s =>
      cases head
      obtain ⟨current', q', out, reads, eq⟩ := produced_cons (some []) false c s
      rw [quoteInWordFrom_cons, not_or] at words
      rw [eq]
      have later {front : List UInt8} (pending : Pending current' q' front) :=
        tokens_produced (reached_start.reads reads) pending closed words.2
      cases reads with
      | opensInside =>
        have begun : Pending (some []) true [quote] := ⟨rfl, List.not_mem_nil⟩
        exact later begun
      | ends blank => exact absurd blank (by simp [word])
      | inWord _ other =>
        have begun : Pending (some [c]) false [c] :=
          ⟨rfl, List.cons_ne_nil _ _, by simp [word, other]⟩
        exact later begun

end Produced

end Cheops.Misc
