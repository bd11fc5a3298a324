import Cheops.Sh.Commands

/-! # The command `force`

`force` runs another command with `FLAG_FORCE` set in its events.  It joins the words of the command
and splits them once more, which gives the same words only where none of them needs a quote; then it
does what the command does, but for the flag (`force_splits_iff`).

`executeCommand_sends` says what any command leaves in `flags`, and which flags its events have.
-/

namespace Cheops.Sh

open Cheops.Lib Cheops.Event Cheops.Fields Cheops.Misc

variable {o : ByteOrder} {env : Env} {argc n : Int} {words argv toks : List (List UInt8)}
  {sh sh' : Shell} {word : List UInt8}

/-! ## The words of a joined line -/

/-- Words that need no quotes.  The first of them may be empty: a string is begun at the start of
    a line. -/
def Plain (words : List (List UInt8)) : Prop :=
  (∀ w ∈ words, ∀ c ∈ w, isBlank c = false ∧ c ≠ quote) ∧ ∀ w ∈ words.tail, w ≠ []

theorem joined_cons (w : List UInt8) (words : List (List UInt8)) :
    joined (w :: words) = w ++ 32 :: joined words := by
  rw [joined, List.flatMap_cons, List.append_assoc]
  rfl

theorem quote_mem_joined : quote ∈ joined words ↔ ∃ w ∈ words, quote ∈ w := by
  simp [joined, quote]

theorem count_joined (words : List (List UInt8)) :
    (joined words).count quote = words.flatten.count quote := by
  induction words with
  | nil => rfl
  | cons w words ih =>
    have blank : (32 == quote) = false := by decide
    rw [joined_cons, List.count_append, List.count_cons, ih, blank, List.flatten_cons,
      List.count_append]
    rfl

theorem produced_joined_none (plain : ∀ w ∈ words, ∀ c ∈ w, isBlank c = false ∧ c ≠ quote)
    (nonempty : ∀ w ∈ words, w ≠ []) : produced none false (joined words) = words := by
  induction words with
  | nil => rfl
  | cons w words ih =>
    obtain ⟨c, w, rfl⟩ := List.exists_cons_of_ne_nil (nonempty w List.mem_cons_self)
    obtain ⟨blank, other⟩ := plain (c :: w) List.mem_cons_self c List.mem_cons_self
    have later : ∀ d ∈ w, isBlank d = false ∧ d ≠ quote := fun d member =>
      plain (c :: w) List.mem_cons_self d (List.mem_cons_of_mem c member)
    rw [joined_cons, List.cons_append, produced, if_neg (by simp [blank]), if_neg other,
      produced_word later, produced, if_neg (by decide), if_pos (by decide),
      ih (fun v member => plain v (List.mem_cons_of_mem _ member))
        (fun v member => nonempty v (List.mem_cons_of_mem _ member))]
    rfl

theorem produced_joined (plain : Plain words) (some_word : words ≠ []) :
    produced (some []) false (joined words) = words := by
  obtain ⟨w, words, rfl⟩ := List.exists_cons_of_ne_nil some_word
  obtain ⟨chars, nonempty⟩ := plain
  rw [joined_cons, produced_word (chars w List.mem_cons_self), produced, if_neg (by decide),
    if_pos (by decide),
    produced_joined_none (fun v member => chars v (List.mem_cons_of_mem _ member)) nonempty]
  rfl

/-- The quotes in the strings are quotes of the line, and those that close are not among them. -/
theorem count_produced (current : Option (List UInt8)) (q : Bool) (s : List UInt8)
    (begun : current = none → q = false) :
    (produced current q s).flatten.count quote ≤ (current.getD []).count quote + s.count quote ∧
      ((q ^^ opened s) = false → q = true ∨ quote ∈ s →
        (produced current q s).flatten.count quote <
          (current.getD []).count quote + s.count quote) := by
  induction s generalizing current q with
  | nil =>
    constructor
    · cases current <;> simp [produced]
    · intro closed quoted
      simp [opened] at closed quoted
      simp [closed] at quoted
  | cons c s ih =>
    obtain ⟨current', q', out, reads, eq⟩ := produced_cons current q c s
    rw [eq, opened_cons]
    cases reads with
    | gap blank =>
      have other := ne_quote_of_isBlank blank
      have rest := ih none q begun
      simpa [beq_false_of_ne other, List.count_cons, other.symm] using rest
    | opens =>
      obtain rfl := begun rfl
      obtain ⟨le, lt⟩ := ih (some []) true (by simp)
      simp at le lt ⊢
      grind
    | starts _ other =>
      obtain rfl := begun rfl
      have rest := ih (some [c]) false (by simp)
      simpa [beq_false_of_ne other, List.count_cons, other.symm] using rest
    | closes =>
      obtain ⟨le, lt⟩ := ih none false (by simp)
      simp at le lt ⊢
      grind
    | @opensInside w =>
      obtain ⟨le, lt⟩ := ih (some (w ++ [quote]).tail) true (by simp)
      have fewer : ((w ++ [quote]).tail).count quote ≤ w.count quote + 1 := by
        have sub := (List.tail_sublist (w ++ [quote])).count_le quote
        simpa using sub
      simp at le lt ⊢
      grind
    | ends blank =>
      have other := beq_false_of_ne (ne_quote_of_isBlank blank)
      have rest := ih none false (by simp)
      simp [other, List.count_cons] at rest ⊢
      grind
    | @inRun w _ other =>
      have rest := ih (some (w ++ [c])) true (by simp)
      simpa [beq_false_of_ne other, List.count_cons, other.symm] using rest
    | @inWord w _ _ other =>
      have rest := ih (some (w ++ [c])) false (by simp)
      simpa [beq_false_of_ne other, List.count_cons, other.symm] using rest

/-- In a line without quotes no string has a blank, and only the one that has been begun may be
    empty. -/
theorem produced_plain {s : List UInt8} (simple : quote ∉ s) :
    (∀ t ∈ produced none false s, t ≠ [] ∧ ∀ c ∈ t, isBlank c = false) ∧
      ∀ w : List UInt8, (∀ c ∈ w, isBlank c = false) → ∃ v rest,
        produced (some w) false s = (w ++ v) :: rest ∧ (∀ c ∈ w ++ v, isBlank c = false) ∧
          ∀ t ∈ rest, t ≠ [] ∧ ∀ c ∈ t, isBlank c = false := by
  induction s with
  | nil => exact ⟨by simp [produced], fun w plain => ⟨[], [], by simpa [produced] using plain⟩⟩
  | cons c s ih =>
    rw [List.mem_cons, not_or] at simple
    obtain ⟨behind, later⟩ := ih simple.2
    have other : c ≠ quote := Ne.symm simple.1
    cases blank : isBlank c with
    | true =>
      refine ⟨by rwa [produced, if_pos blank], fun w plain => ⟨[], produced none false s, ?_⟩⟩
      rw [produced, if_neg other, if_pos ⟨blank, by simp⟩, List.append_nil]
      exact ⟨rfl, plain, behind⟩
    | false =>
      constructor
      · obtain ⟨v, rest, eq, plain, nonempty⟩ := later [c] (by simpa using blank)
        rw [produced, if_neg (by simp [blank]), if_neg other, eq]
        rintro t (- | ⟨-, member⟩)
        · exact ⟨by simp, plain⟩
        · exact nonempty t member
      · intro w plain
        obtain ⟨v, rest, eq, plain', nonempty⟩ := later (w ++ [c]) (by
          intro d member
          rcases List.mem_append.mp member with early | last
          · exact plain d early
          · rw [List.mem_singleton.mp last]
            exact blank)
        rw [produced, if_neg other, if_neg (by simp [blank]), eq]
        exact ⟨c :: v, rest, by simp, by simpa using plain', nonempty⟩

/-- The words of a joined line are the words that have been joined. -/
theorem tokenize_joined_iff :
    tokenize (joined words) = some ((words.length : Int), words) ↔
      words ≠ [] ∧ words.length ≤ MAX_TOKENS ∧ Plain words := by
  constructor
  · intro split
    unfold tokenize at split
    split at split
    case isFalse => cases split
    case isTrue few =>
      obtain ⟨returned, same⟩ := Prod.mk.inj (Option.some.inj split)
      rw [same] at few
      -- the quotes are closed, so that there are none: one that closes would be lost
      have closed : opened (joined words) = false := by
        by_contra unclosed
        rw [if_pos (by simpa using unclosed)] at returned
        omega
      have simple : quote ∉ joined words := by
        intro member
        have fewer := (count_produced (some []) false (joined words) (by simp)).2
          (by rwa [Bool.false_xor]) (.inr member)
        rw [same, count_joined] at fewer
        simp at fewer
      obtain ⟨v, rest, eq, plain, nonempty⟩ := (produced_plain simple).2 [] (by simp)
      rw [same] at eq
      subst eq
      refine ⟨by simp, few, fun w member c inside => ⟨?_, ?_⟩, fun w member => ?_⟩
      · rcases List.mem_cons.mp member with rfl | later
        · exact plain c inside
        · exact (nonempty w later).2 c inside
      · rintro rfl
        exact simple (quote_mem_joined.mpr ⟨w, member, inside⟩)
      · exact (nonempty w member).1
  · rintro ⟨some_word, few, plain⟩
    have simple : quote ∉ joined words := by
      rw [quote_mem_joined]
      rintro ⟨w, member, inside⟩
      exact (plain.1 w member quote inside).2 rfl
    rw [tokenize, produced_joined plain some_word, if_pos few, opened_of_not_mem simple]
    rfl

/-! ## The flags of the events -/

/-- The command is `force`. -/
def IsForce (argv : List (List UInt8)) : Prop := argv.head?.bind findCommand = some .force

/-- The command is `discover`, with the word `force` behind it. -/
def AsksForce (argc : Int) (argv : List (List UInt8)) : Prop :=
  argv.head?.bind findCommand = some .discover ∧ ¬ argc < 2 ∧ text "force" ∈ argv.tail

instance (argv : List (List UInt8)) : Decidable (IsForce argv) :=
  inferInstanceAs (Decidable (_ = _))

instance (argc : Int) (argv : List (List UInt8)) : Decidable (AsksForce argc argv) :=
  inferInstanceAs (Decidable (_ ∧ _))

/-- An event with the number of a request, and with room for two fields if it is a login. -/
def Request (type size : Nat) : Prop := type < 2 ^ 16 ∧ (type = EVENT_AUTH_REQUEST → size = 70)

/-- The events sent between two states, all of them with these flags but for the logins. -/
structure Sends (flags : UInt32) (sh sh' : Shell) (es : List SentEvent) : Prop where
  sent : sh'.sent = sh.sent ++ es
  flagged : ∀ e ∈ es, e.flags = if e.type = EVENT_AUTH_REQUEST then 0 else flags
  requests : ∀ e ∈ es, Request e.type e.event.length

variable {flags : UInt32} {es fs : List SentEvent} {sh'' : Shell}

theorem Sends.nothing (sent : sh'.sent = sh.sent) : Sends flags sh sh' [] :=
  ⟨by rw [sent, List.append_nil], (fun e none => by cases none), fun e none => by cases none⟩

theorem Sends.trans (first : Sends flags sh sh' es) (second : Sends flags sh' sh'' fs) :
    Sends flags sh sh'' (es ++ fs) := by
  refine ⟨by rw [second.sent, first.sent, List.append_assoc], fun e member => ?_,
    fun e member => ?_⟩
  · rcases List.mem_append.mp member with early | late
    · exact first.flagged e early
    · exact second.flagged e late
  · rcases List.mem_append.mp member with early | late
    · exact first.requests e early
    · exact second.requests e late

/-- One event, sent or not. -/
theorem Sends.sendIf (sends : Bool) (type : Nat) (used : UInt32) (size : Nat)
    (right : used = if type = EVENT_AUTH_REQUEST then 0 else flags) (request : Request type size)
    (sh : Shell) : ∃ es, Sends flags sh (sh.sendIf sends type used size) es := by
  unfold Shell.sendIf
  split
  · refine ⟨_, rfl, fun e member => ?_, fun e member => ?_⟩
    · rw [List.mem_singleton.mp member]
      exact right
    · rw [List.mem_singleton.mp member, length_slice]
      exact request
  · exact ⟨[], .nothing rfl⟩

@[simp] theorem flags_sendIf (sends : Bool) (type : Nat) (used : UInt32) (size : Nat) (sh : Shell) :
    (sh.sendIf sends type used size).flags = sh.flags := by
  unfold Shell.sendIf
  split <;> rfl

/-- Other requests may have any size. -/
theorem request_of_ne {type : Nat} (small : type < 2 ^ 16) (other : type ≠ EVENT_AUTH_REQUEST)
    (size : Nat) : Request type size := ⟨small, fun login => absurd login other⟩

theorem discoverLoop_sends (env : Env) (skip x : Nat) (args : List (List UInt8)) (done : Int)
    (sh : Shell) :
    (discoverLoop o env skip x args done sh).2.flags = sh.flags ∧
      ∃ es, Sends sh.flags sh (discoverLoop o env skip x args done sh).2 es := by
  induction args generalizing x done sh with
  | nil => exact ⟨rfl, [], .nothing rfl⟩
  | cons arg args ih =>
    rw [discoverLoop]
    split
    · exact ih (x + 1) done sh
    · split
      next => exact ⟨rfl, [], .nothing rfl⟩
      next => exact ih (x + 1) done sh
      next start end_ _ =>
        obtain ⟨es, one⟩ := Sends.sendIf (env.eventSend x) EVENT_DISCOVER_IPV4 sh.flags 24
          (if_neg (by decide)).symm (request_of_ne (by decide) (by decide) 24)
          (sh.setEvent (shDoDiscover o start end_ sh.ee))
        obtain ⟨kept, fs, rest⟩ := ih (x + 1) (if env.eventSend x then 0 else done)
          ((sh.setEvent (shDoDiscover o start end_ sh.ee)).sendIf (env.eventSend x)
            EVENT_DISCOVER_IPV4 sh.flags 24)
        rw [flags_sendIf] at kept rest
        exact ⟨kept, es ++ fs, Sends.trans ⟨one.sent, one.flagged, one.requests⟩ rest⟩

/-- A command that leaves the flags alone, and sends events with them. -/
def Quiet (sh : Shell) (r : Int × Shell) : Prop :=
  r.2.flags = sh.flags ∧ ∃ es, Sends sh.flags sh r.2 es

theorem quiet_self (n : Int) (sh : Shell) : Quiet sh (n, sh) := ⟨rfl, [], .nothing rfl⟩

theorem doDiscover_sends (env : Env) (argc : Int) (args : List (List UInt8)) (sh : Shell) :
    (doDiscover o env argc args sh).2.flags =
        (if ¬ argc < 2 ∧ text "force" ∈ args then sh.flags ||| FLAG_FORCE else sh.flags) ∧
      ∃ es, Sends (doDiscover o env argc args sh).2.flags sh
        (doDiscover o env argc args sh).2 es := by
  unfold doDiscover
  by_cases few : argc < 2
  case pos =>
    rw [if_pos few, if_neg (by simp [few])]
    exact quiet_self 0 sh
  case neg =>
    simp only [if_neg few, List.contains_iff_mem]
    by_cases asks : text "force" ∈ args
    case pos =>
      rw [if_pos asks, if_pos ⟨few, asks⟩]
      obtain ⟨kept, es, sends⟩ := discoverLoop_sends (o := o) env
        (skipped 1 args (args.length + 1)) 1 args (-1)
        sh.raise
      rw [kept]
      exact ⟨rfl, es, sends.sent, sends.flagged, sends.requests⟩
    case neg =>
      rw [if_neg asks, if_neg fun both => asks both.2]
      obtain ⟨kept, es, sends⟩ := discoverLoop_sends (o := o) env
        (skipped 1 args (args.length + 1)) 1 args (-1) sh
      rw [kept]
      exact ⟨rfl, es, sends⟩

theorem doSetDiscoverRetries_quiet (env : Env) (argc : Int) (args : List (List UInt8))
    (sh : Shell) : Quiet sh (doSetDiscoverRetries o env argc args sh) := by
  unfold doSetDiscoverRetries
  split
  · exact quiet_self 0 sh
  · split_ifs
    · exact quiet_self 0 sh
    · exact quiet_self 0 sh
    · obtain ⟨es, one⟩ := Sends.sendIf (env.eventSend 0) EVENT_SET_SETTINGS sh.flags 8
        (if_neg (by decide)).symm (request_of_ne (by decide) (by decide) 8) _
      exact ⟨flags_sendIf .., es, one.sent, one.flagged, one.requests⟩

theorem doOsScanCommand_quiet (env : Env) (argc : Int) (args : List (List UInt8)) (sh : Shell) :
    Quiet sh (doOsScanCommand env argc args sh) := by
  unfold doOsScanCommand
  split
  · exact quiet_self 0 sh
  · split_ifs
    · exact quiet_self 0 sh
    · exact ⟨flags_sendIf .., Sends.sendIf _ _ _ _ (if_neg (by decide)).symm
        (request_of_ne (by decide) (by decide) _) sh⟩

/-- What a command other than `force` does to the flags, and those that its events have. -/
theorem run_sends {c : Command} (other : c ≠ .force) (env : Env) (argc : Int)
    (args : List (List UInt8)) (sh : Shell) :
    (c.run o env argc args sh).2.flags =
        (if c = .discover ∧ ¬ argc < 2 ∧ text "force" ∈ args then sh.flags ||| FLAG_FORCE
          else sh.flags) ∧
      ∃ es, Sends (c.run o env argc args sh).2.flags sh (c.run o env argc args sh).2 es := by
  have quiet (same : c ≠ .discover) (h : Quiet sh (c.run o env argc args sh)) :
      (c.run o env argc args sh).2.flags =
          (if c = .discover ∧ ¬ argc < 2 ∧ text "force" ∈ args then sh.flags ||| FLAG_FORCE
            else sh.flags) ∧
        ∃ es, Sends (c.run o env argc args sh).2.flags sh (c.run o env argc args sh).2 es := by
    obtain ⟨kept, es, sends⟩ := h
    rw [if_neg fun all => same all.1, kept]
    exact ⟨rfl, es, sends⟩
  cases c with
  | force => exact absurd rfl other
  | help | summary => exact quiet (by simp) (quiet_self 0 sh)
  | quit | delcache => exact quiet (by simp) ⟨rfl, [], .nothing rfl⟩
  | discover =>
    simp only [true_and]
    exact doDiscover_sends env argc args sh
  | setDiscoverRetries => exact quiet (by simp) (doSetDiscoverRetries_quiet env argc args sh)
  | os => exact quiet (by simp) (doOsScanCommand_quiet env argc args sh)
  | login => 
    exact quiet (by simp)
      ⟨flags_sendIf .., Sends.sendIf _ _ _ _ (if_pos rfl).symm ⟨by decide, fun _ => rfl⟩ sh⟩

theorem or_and_not (a b : UInt32) : (a ||| b) &&& ~~~b = a &&& ~~~b := by
  apply UInt32.toBitVec_inj.mp
  ext i bound
  simp
  grind

theorem raise_raise (sh : Shell) : sh.raise.raise = sh.raise := by
  simp [Shell.raise, UInt32.or_assoc]

theorem isForce_cons : IsForce (word :: words) ↔ findCommand word = some .force := Iff.rfl

theorem asksForce_cons : AsksForce argc (word :: words) ↔
    findCommand word = some .discover ∧ ¬ argc < 2 ∧ text "force" ∈ words := Iff.rfl

/-- `do_force` goes on with the words that it has split, which take less room. -/
theorem executeCommand_force_inv (found : findCommand word = some .force)
    (run : executeCommand o env argc (word :: words) sh = some (n, sh')) :
    ¬ argc < 2 ∧ ∃ cnt toks n' sh'', tokenize (joined words) = some (cnt, toks) ∧
      size toks < size (word :: words) ∧ executeCommand o env cnt toks sh.raise = some (n', sh'') ∧
      n = 0 ∧ sh' = sh''.lower := by
  rw [executeCommand_force found] at run
  split at run
  case isTrue => cases run
  case isFalse enough =>
    obtain ⟨⟨cnt, toks⟩, split, run⟩ := Option.bind_eq_some_iff.mp run
    obtain ⟨⟨n', sh''⟩, inner, same⟩ := Option.map_eq_some_iff.mp run
    obtain ⟨rfl, rfl⟩ := Prod.mk.inj same
    refine ⟨enough, cnt, toks, n', sh'', split, ?_, inner, rfl, rfl⟩
    have room := tokenize_size split
    rw [length_joined] at room
    rw [size_cons, length_of_force found]
    omega

/-- What `execute_command` does to the flags, and those that the events have. -/
theorem executeCommand_sends (run : executeCommand o env argc argv sh = some (n, sh')) :
    (sh'.flags =
      if IsForce argv then sh.flags &&& ~~~FLAG_FORCE
      else if AsksForce argc argv then sh.flags ||| FLAG_FORCE else sh.flags) ∧
    ∃ es, Sends (if IsForce argv ∨ AsksForce argc argv then sh.flags ||| FLAG_FORCE else sh.flags)
      sh sh' es := by
  induction hsize : size argv using Nat.strongRecOn generalizing argv argc sh n sh' with
  | _ m ih =>
    cases argv with
    | nil =>
      rw [executeCommand] at run
      cases run
    | cons word words =>
      simp only [isForce_cons, asksForce_cons]
      cases found : findCommand word with
      | none =>
        rw [executeCommand_none found] at run
        cases run
        simpa using ⟨[], .nothing rfl⟩
      | some c =>
        by_cases force : c = .force
        case pos =>
          subst force
          obtain ⟨-, cnt, toks, n', sh'', -, shorter, inner, rfl, rfl⟩ :=
            executeCommand_force_inv found run
          obtain ⟨flags, es, sends⟩ := ih _ (hsize ▸ shorter) inner rfl
          -- the flag has been set before, and is cleared whatever the command has done to it
          have set (p : Prop) [Decidable p] :
              (if p then sh.raise.flags ||| FLAG_FORCE else sh.raise.flags) =
                sh.flags ||| FLAG_FORCE := by
            split
            · exact congrArg Shell.flags (raise_raise sh)
            · rfl
          rw [set] at sends flags
          simp only [true_or, if_true]
          refine ⟨?_, es, sends.sent, sends.flagged, sends.requests⟩
          change sh''.flags &&& ~~~FLAG_FORCE = _
          rw [flags]
          split
          · change ((sh.flags ||| FLAG_FORCE) &&& ~~~FLAG_FORCE) &&& ~~~FLAG_FORCE = _
            rw [UInt32.and_assoc, UInt32.and_self, or_and_not]
          · exact or_and_not _ _
        case neg =>
          rw [executeCommand_run found force] at run
          obtain ⟨flags, es, sends⟩ := run_sends (o := o) force env argc words sh
          rw [Option.some.inj run] at flags sends
          simp only [Option.some.injEq, force, if_false, false_or]
          refine ⟨flags, es, ?_⟩
          rwa [flags] at sends

/-! ## A command behind `force` -/

/-- The event with the flag set; logins have no flags. -/
def SentEvent.raised (e : SentEvent) : SentEvent :=
  if e.type = EVENT_AUTH_REQUEST then e else { e with flags := e.flags ||| FLAG_FORCE }

/-- The events behind the first `k` with the flag set. -/
def Shell.raisedFrom (k : Nat) (sh : Shell) : Shell :=
  { sh with sent := sh.sent.take k ++ (sh.sent.drop k).map SentEvent.raised }

/-- The same command with the flag set from its start, where `k` events had been sent. -/
def Shell.forced (k : Nat) (sh : Shell) : Shell := (sh.raisedFrom k).raise

def asForced (k : Nat) (r : Int × Shell) : Int × Shell := (r.1, r.2.forced k)

variable {k : Nat}

theorem forced_length (sh : Shell) : sh.forced sh.sent.length = sh.raise := by
  simp [Shell.forced, Shell.raisedFrom]

theorem forced_raise (k : Nat) (sh : Shell) : sh.raise.forced k = sh.forced k :=
  raise_raise (sh.raisedFrom k)

theorem lower_raise (sh : Shell) : sh.raise.lower = sh.lower := by
  simp only [Shell.raise, Shell.lower, or_and_not]

theorem lower_forced (k : Nat) (sh : Shell) : (sh.forced k).lower = (sh.raisedFrom k).lower :=
  lower_raise _

theorem forced_sendIf (sends : Bool) (size : Nat) {type : Nat} (other : type ≠ EVENT_AUTH_REQUEST)
    (before : k ≤ sh.sent.length) :
    (sh.forced k).sendIf sends type (sh.forced k).flags size =
      (sh.sendIf sends type sh.flags size).forced k := by
  cases sends with
  | false => rfl
  | true =>
    simp [Shell.sendIf, Shell.send, Shell.forced, Shell.raisedFrom, Shell.raise,
      List.take_append_of_le_length before, List.drop_append_of_le_length before,
      SentEvent.raised, other]

theorem forced_login (sends : Bool) (size : Nat) (before : k ≤ sh.sent.length) :
    (sh.forced k).sendIf sends EVENT_AUTH_REQUEST 0 size =
      (sh.sendIf sends EVENT_AUTH_REQUEST 0 size).forced k := by
  cases sends with
  | false => rfl
  | true =>
    simp [Shell.sendIf, Shell.send, Shell.forced, Shell.raisedFrom, Shell.raise,
      List.take_append_of_le_length before, List.drop_append_of_le_length before,
      SentEvent.raised]

theorem le_sent_sendIf (sends : Bool) (type : Nat) (used : UInt32) (size : Nat)
    (before : k ≤ sh.sent.length) : k ≤ (sh.sendIf sends type used size).sent.length := by
  unfold Shell.sendIf Shell.send
  split
  · simp only [List.length_append]
    omega
  · exact before

theorem discoverLoop_forced (env : Env) (skip x : Nat) (args : List (List UInt8)) (done : Int)
    (before : k ≤ sh.sent.length) :
    discoverLoop o env skip x args done (sh.forced k) =
      asForced k (discoverLoop o env skip x args done sh) := by
  induction args generalizing x done sh with
  | nil => rfl
  | cons arg args ih =>
    rw [discoverLoop, discoverLoop]
    split
    · exact ih (x + 1) done before
    · split
      next => rfl
      next => exact ih (x + 1) done before
      next start end_ _ =>
        have set : k ≤ (sh.setEvent (shDoDiscover o start end_ sh.ee)).sent.length := before
        rw [← ih (x + 1) _ (le_sent_sendIf _ _ _ _ set)]
        exact congrArg _ (forced_sendIf (env.eventSend x) 24 (by decide) set)

theorem doDiscover_forced (env : Env) (argc : Int) (args : List (List UInt8))
    (before : k ≤ sh.sent.length) :
    doDiscover o env argc args (sh.forced k) = asForced k (doDiscover o env argc args sh) := by
  unfold doDiscover
  split
  · rfl
  · split
    · have raised : k ≤ sh.raise.sent.length := before
      have loop := discoverLoop_forced (o := o) env (skipped 1 args (args.length + 1)) 1 args (-1)
        raised
      rw [forced_raise] at loop
      rw [← loop, show (sh.forced k).raise = sh.forced k from raise_raise _]
    · exact discoverLoop_forced env _ _ args _ before

theorem doSetDiscoverRetries_forced (env : Env) (argc : Int) (args : List (List UInt8))
    (before : k ≤ sh.sent.length) :
    doSetDiscoverRetries o env argc args (sh.forced k) =
      asForced k (doSetDiscoverRetries o env argc args sh) := by
  unfold doSetDiscoverRetries
  split
  · rfl
  · next arg _ =>
    split_ifs
    · rfl
    · rfl
    · have set : k ≤ (sh.setEvent
          (o.put 4 (o.put 4 sh.ee 4 (atoi arg).toNat) 0 SET_DISCOVER_RETRIES)).sent.length := before
      exact congrArg _ (forced_sendIf (env.eventSend 0) 8 (by decide) set)

/-- A command other than `force` does the same with the flag set, but for the flag. -/
theorem run_forced {c : Command} (other : c ≠ .force) (env : Env) (argc : Int)
    (args : List (List UInt8)) (before : k ≤ sh.sent.length) :
    c.run o env argc args (sh.forced k) = asForced k (c.run o env argc args sh) := by
  cases c with
  | force => exact absurd rfl other
  | help | summary | quit | delcache => rfl
  | discover => exact doDiscover_forced env argc args before
  | setDiscoverRetries => exact doSetDiscoverRetries_forced env argc args before
  | os =>
    change doOsScanCommand env argc args _ = asForced k (doOsScanCommand env argc args sh)
    unfold doOsScanCommand
    split
    · rfl
    · split
      · rfl
      · exact congrArg _ (forced_sendIf _ _ (by decide) before)
  | login => exact congrArg _ (forced_login _ _ before)

theorem raisedFrom_eq (sent : sh'.sent = sh.sent ++ es) (raised : ∀ e ∈ es, e.raised = e) :
    sh'.raisedFrom sh.sent.length = sh' := by
  have same : es.map SentEvent.raised = es :=
    (List.map_congr_left raised).trans (List.map_id' es)
  rw [Shell.raisedFrom, sent, List.take_left, List.drop_left, same, ← sent]

/-- What runs with the flag set has it in its events already. -/
theorem raisedFrom_of_raise (run : executeCommand o env argc argv sh.raise = some (n, sh')) :
    sh'.raisedFrom sh.sent.length = sh' := by
  obtain ⟨-, es, sends⟩ := executeCommand_sends run
  refine raisedFrom_eq sends.sent fun e member => ?_
  have flags := sends.flagged e member
  unfold SentEvent.raised
  split
  · rfl
  next other =>
    have twice : e.flags ||| FLAG_FORCE = e.flags := by
      rw [flags, if_neg other]
      split
      · exact congrArg Shell.flags (raise_raise sh.raise)
      · exact congrArg Shell.flags (raise_raise sh)
    rw [twice]

/-- `execute_command` does the same with the flag set, but for the flag. -/
theorem executeCommand_raise (o : ByteOrder) (env : Env) (argc : Int) (argv : List (List UInt8))
    (sh : Shell) :
    (executeCommand o env argc argv sh.raise).map (fun r => (r.1, r.2.lower)) =
      (executeCommand o env argc argv sh).map fun r =>
        (r.1, (r.2.raisedFrom sh.sent.length).lower) := by
  cases argv with
  | nil =>
    rw [executeCommand, executeCommand]
    rfl
  | cons word words =>
    cases found : findCommand word with
    | none =>
      rw [executeCommand_none found, executeCommand_none found, Option.map_some, Option.map_some,
        ← lower_forced, forced_length]
    | some c =>
      by_cases force : c = .force
      case pos =>
        subst force
        rw [executeCommand_force found, executeCommand_force found, raise_raise]
        split
        · rfl
        · cases tokenize (joined words) with
          | none => rfl
          | some split =>
            rw [Option.bind_some, Option.map_map, Option.map_map]
            cases inner : executeCommand o env split.1 split.2 sh.raise with
            | none => rfl
            | some r =>
              have raised := raisedFrom_of_raise inner
              simp only [Option.map_some, Function.comp, Option.some.injEq, Prod.mk.injEq, true_and]
              exact congrArg (fun sh' : Shell => sh'.lower.lower) raised.symm
      case neg =>
        rw [executeCommand_run found force, executeCommand_run found force, ← forced_length,
          run_forced force env argc words (Nat.le_refl _), Option.map_some, Option.map_some,
          ← lower_forced]
        rfl

/-- `force` splits its words as they were given to it exactly if they are plain, and then does with
    them what the command would do, but that the flag is set in its events and cleared behind. -/
theorem force_splits_iff (force : findCommand word = some .force) (words : List (List UInt8)) :
    (tokenize (joined words) = some ((words.length : Int), words) ↔
      words ≠ [] ∧ words.length ≤ MAX_TOKENS ∧ Plain words) ∧
    (tokenize (joined words) = some ((words.length : Int), words) → ∀ o env sh,
      executeCommand o env (words.length + 1) (word :: words) sh =
        (executeCommand o env words.length words sh).map fun r =>
          (0, (r.2.raisedFrom sh.sent.length).lower)) := by
  refine ⟨tokenize_joined_iff, fun split o env sh => ?_⟩
  obtain ⟨some_word, -⟩ := tokenize_joined_iff.mp split
  have enough : 0 < words.length := List.length_pos_iff.mpr some_word
  rw [executeCommand_force force, if_neg (by omega), split, Option.bind_some]
  have same := congrArg (Option.map fun r => ((0 : Int), r.2))
    (executeCommand_raise o env words.length words sh)
  rwa [Option.map_map, Option.map_map] at same

/-- `FORCE discover h`. -/
theorem force_splits_iff_discover :
    (tokenize (joined [text "discover", text "h"]) = some (2, [text "discover", text "h"]) ↔
      [text "discover", text "h"] ≠ [] ∧ [text "discover", text "h"].length ≤ MAX_TOKENS ∧
        Plain [text "discover", text "h"]) ∧
    (tokenize (joined [text "discover", text "h"]) = some (2, [text "discover", text "h"]) →
      ∀ o env sh, executeCommand o env (2 + 1) [text "FORCE", text "discover", text "h"] sh =
        (executeCommand o env 2 [text "discover", text "h"] sh).map fun r =>
          (0, (r.2.raisedFrom sh.sent.length).lower)) :=
  force_splits_iff (show findCommand (text "FORCE") = some .force by decide)
    [text "discover", text "h"]

end Cheops.Sh
