import Cheops.Lib.Precedence
import Cheops.Lib.Run
import Cheops.Sh.Force

/-! # Sessions of the shell

Lines are typed and replies come in, in any order.  The word `force` behind `discover` sets
`FLAG_FORCE` as well, and nothing clears it but the next `force` command: until then all events have
it, but for the logins (`forced_iff`).

The list of the hosts that have been discovered has each of them once, and those of the replies
since it was deleted (`discovered_iff`).
-/

namespace Cheops.Sh

open Cheops.Lib Cheops.Event Cheops.Misc

/-! ## Sessions -/

/-- A line is typed, or an event of the agent comes in.  A refused login asks for a name and a
    password, and `sends` is whether they can be sent. -/
inductive Input where
  | line (env : Env) (line : List UInt8)
  | discovered (ip : Nat)
  | authenticated
  | refused (username password : List UInt8) (sends : Bool)

/-- `handle_command`, `handle_discover_reply` and `handle_auth_request_reply`.  `authenticate_me`
    has 80 bytes for each of the strings. -/
def step (o : ByteOrder) (sh : Shell) : Input → Option Shell
  | .line env line => handleCommand o env line sh
  | .discovered ip => some (addToDiscoveredList ip sh)
  | .authenticated => some sh
  | .refused username password sends =>
    if username.length < 80 ∧ password.length < 80 then
      some (sendAuthRequest username password sends sh)
    else none

def Step (o : ByteOrder) (sh : Shell) (i : Input × List SentEvent) (sh' : Shell) : Prop :=
  sh.running = true ∧ step o sh i.1 = some sh' ∧ sh'.sent = sh.sent ++ i.2

def Input.words : Input → List (List UInt8)
  | .line _ s => if opened s then [] else produced (some []) false s
  | _ => []

/-- A `force` command, and a `discover` command with the word `force`. -/
def Input.IsForce (i : Input) : Prop := Sh.IsForce i.words
def Input.AsksForce (i : Input) : Prop := Sh.AsksForce i.words.length i.words

instance (i : Input) : Decidable i.IsForce := inferInstanceAs (Decidable (Sh.IsForce _))
instance (i : Input) : Decidable i.AsksForce := inferInstanceAs (Decidable (Sh.AsksForce _ _))

/-- The command that a command comes to, behind any number of `force`. -/
inductive Executes : Int → List (List UInt8) → Command → Prop
  | command {argc word words c} : findCommand word = some c → c ≠ .force →
      Executes argc (word :: words) c
  | force {argc word words cnt toks c} : findCommand word = some .force → ¬ argc < 2 →
      tokenize (joined words) = some (cnt, toks) → Executes cnt toks c →
      Executes argc (word :: words) c

def Input.Deletes (i : Input) : Prop := Executes i.words.length i.words .delcache

variable {o : ByteOrder} {env : Env} {argc n : Int} {argv : List (List UInt8)} {sh sh' : Shell}
  {i : Input} {line : List UInt8} {history pre post : List (Input × List SentEvent)}
  {es : List SentEvent}

/-- A line executes its words, or nothing if a quote is not closed. -/
theorem handleCommand_inv (run : handleCommand o env line sh = some sh') :
    ((Input.line env line).words = [] ∧ sh' = sh) ∨
      ∃ n, executeCommand o env (Input.line env line).words.length (Input.line env line).words sh =
        some (n, sh') := by
  unfold handleCommand tokenize at run
  simp only [Input.words]
  split at run
  next => cases run
  next cnt toks split =>
    split at split
    case isFalse => cases split
    case isTrue =>
      obtain ⟨rfl, rfl⟩ := Prod.mk.inj (Option.some.inj split)
      cases closed : opened line with
      | true =>
        rw [closed, if_pos rfl, if_neg (by omega)] at run
        exact .inl ⟨if_pos rfl, (Option.some.inj run).symm⟩
      | false =>
        rw [closed, if_neg Bool.false_ne_true, if_pos (by omega)] at run
        obtain ⟨⟨n, sh''⟩, inner, rfl⟩ := Option.map_eq_some_iff.mp run
        rw [if_neg Bool.false_ne_true]
        exact .inr ⟨n, inner⟩

/-! ## The flag -/

/-- What a step does to the flags, and those that its events have. -/
theorem step_sends (run : step o sh i = some sh') :
    (sh'.flags =
      if i.IsForce then sh.flags &&& ~~~FLAG_FORCE
      else if i.AsksForce then sh.flags ||| FLAG_FORCE else sh.flags) ∧
    ∃ es, Sends (if i.IsForce ∨ i.AsksForce then sh.flags ||| FLAG_FORCE else sh.flags) sh sh' es :=
    by
  have idle (none : i.words = []) (flags : sh'.flags = sh.flags)
      (sends : ∃ es, Sends sh.flags sh sh' es) :
      (sh'.flags =
        if i.IsForce then sh.flags &&& ~~~FLAG_FORCE
        else if i.AsksForce then sh.flags ||| FLAG_FORCE else sh.flags) ∧
      ∃ es, Sends (if i.IsForce ∨ i.AsksForce then sh.flags ||| FLAG_FORCE else sh.flags)
        sh sh' es := by
    have free : ¬ i.IsForce := by simp [Input.IsForce, Sh.IsForce, none]
    have asks : ¬ i.AsksForce := by simp [Input.AsksForce, Sh.AsksForce, none]
    rw [if_neg free, if_neg asks, if_neg (not_or.mpr ⟨free, asks⟩)]
    exact ⟨flags, sends⟩
  cases i with
  | line env line =>
    rcases handleCommand_inv run with ⟨none, rfl⟩ | ⟨n, run⟩
    · exact idle none rfl ⟨[], .nothing rfl⟩
    · exact executeCommand_sends run
  | discovered ip =>
    obtain rfl := Option.some.inj run
    refine idle rfl ?_ ⟨[], .nothing ?_⟩ <;> unfold addToDiscoveredList <;> split <;> rfl
  | authenticated =>
    obtain rfl := Option.some.inj run
    exact idle rfl rfl ⟨[], .nothing rfl⟩
  | refused username password sends =>
    change (if username.length < 80 ∧ password.length < 80 then _ else none) = some sh' at run
    split at run
    · obtain rfl := Option.some.inj run
      refine idle rfl (flags_sendIf ..) ?_
      obtain ⟨es, one⟩ : ∃ es, Sends sh.flags _ _ es :=
        Sends.sendIf sends EVENT_AUTH_REQUEST 0 70 (if_pos rfl).symm ⟨by decide, fun _ => rfl⟩ _
      exact ⟨es, one.sent, one.flagged, one.requests⟩
    · cases run

/-- The flag is set since a `discover` command with the word `force`, up to a `force` command. -/
theorem flags_of_run (run : Run (Step o) initial history sh) :
    (Since Input.AsksForce Input.IsForce (history.map Prod.fst) → sh.flags = FLAG_FORCE) ∧
      (¬ Since Input.AsksForce Input.IsForce (history.map Prod.fst) → sh.flags = 0) := by
  induction run with
  | refl => exact ⟨fun since => absurd since since_nil, fun _ => rfl⟩
  | @snoc history sh sh' l _ hstep ih =>
    obtain ⟨set, clear⟩ := ih
    obtain ⟨flags, -⟩ := step_sends hstep.2.1
    have either : sh.flags = FLAG_FORCE ∨ sh.flags = 0 := by
      by_cases since : Since Input.AsksForce Input.IsForce (history.map Prod.fst)
      · exact .inl (set since)
      · exact .inr (clear since)
    rw [List.map_append, List.map_singleton, since_snoc, flags]
    by_cases force : l.1.IsForce
    case pos =>
      have other : ¬ l.1.AsksForce := fun asks => by
        have two := force.symm.trans asks.1
        simp at two
      rw [if_pos force]
      refine ⟨by simp [force, other], fun _ => ?_⟩
      rcases either with same | same <;> rw [same] <;> decide
    case neg =>
      rw [if_neg force]
      by_cases asks : l.1.AsksForce
      case pos =>
        rw [if_pos asks]
        refine ⟨fun _ => ?_, by simp [asks]⟩
        rcases either with same | same <;> rw [same] <;> decide
      case neg =>
        rw [if_neg asks]
        simpa [asks, force] using And.intro set clear

/-- An event has `FLAG_FORCE` exactly if it is no login and `force` stands in front of its command,
    or behind `discover` in this or in an earlier command since which there was no `force` command;
    and it has no other flag. -/
theorem forced_iff (run : Run (Step o) initial (pre ++ (i, es) :: post) sh) :
    ∀ e ∈ es, (e.flags = FLAG_FORCE ∨ e.flags = 0) ∧
      (e.flags = FLAG_FORCE ↔ e.type ≠ EVENT_AUTH_REQUEST ∧
        (i.IsForce ∨ i.AsksForce ∨
          Since Input.AsksForce Input.IsForce (pre.map Prod.fst))) := by
  obtain ⟨t, t', before, hstep⟩ := run.split
  obtain ⟨set, clear⟩ := flags_of_run before
  obtain ⟨-, es', sends⟩ := step_sends hstep.2.1
  obtain rfl : es' = es := List.append_cancel_left (sends.sent.symm.trans hstep.2.2)
  intro e member
  rw [sends.flagged e member]
  by_cases login : e.type = EVENT_AUTH_REQUEST
  case pos =>
    rw [if_pos login]
    exact ⟨.inr rfl, by simp [login, FLAG_FORCE]⟩
  case neg =>
    rw [if_neg login, ← or_assoc]
    by_cases now : i.IsForce ∨ i.AsksForce
    case pos =>
      have one : t.flags ||| FLAG_FORCE = FLAG_FORCE := by
        by_cases since : Since Input.AsksForce Input.IsForce (pre.map Prod.fst)
        · rw [set since]
          decide
        · rw [clear since]
          decide
      rw [if_pos now, one]
      exact ⟨.inl rfl, by simp [login, now]⟩
    case neg =>
      rw [if_neg now]
      by_cases since : Since Input.AsksForce Input.IsForce (pre.map Prod.fst)
      · rw [set since]
        exact ⟨.inl rfl, by simp [login, since]⟩
      · rw [clear since]
        exact ⟨.inr rfl, by simp [now, since, FLAG_FORCE]⟩

/-- A line with one command. -/
theorem step_line (o : ByteOrder) (env : Env) (line : List UInt8) (c : Command) (cnt : Int)
    (word : List UInt8) (words : List (List UInt8))
    (split : tokenize line = some (cnt, word :: words)) (positive : 0 ≤ cnt)
    (found : findCommand word = some c) (other : c ≠ .force) (sh : Shell) :
    step o sh (.line env line) = some (c.run o env cnt words sh).2 := by
  change handleCommand o env line sh = _
  rw [handleCommand, split]
  simp only
  rw [if_pos positive, executeCommand_run found other]
  rfl

def oneHost : Env := ⟨fun _ => some (Fields.sAddr .little 0x0a000001), fun _ => true⟩

def discoverForce : Input := .line oneHost (text "discover h force")
def discoverAgain : Input := .line oneHost (text "discover h")

def discoverEvent : SentEvent :=
  ⟨EVENT_DISCOVER_IPV4, FLAG_FORCE, [1, 0, 0, 10, 1, 0, 0, 10] ++ List.replicate 16 0⟩

/-- The second command has no `force`, but its event has the flag. -/
theorem forced_iff_again :
    ∃ sh, Run (Step .little) initial
      ([(discoverForce, [discoverEvent])] ++ (discoverAgain, [discoverEvent]) :: []) sh ∧
    ∀ e ∈ [discoverEvent], (e.flags = FLAG_FORCE ∨ e.flags = 0) ∧
      (e.flags = FLAG_FORCE ↔ e.type ≠ EVENT_AUTH_REQUEST ∧
        (discoverAgain.IsForce ∨ discoverAgain.AsksForce ∨
          Since Input.AsksForce Input.IsForce
            ([(discoverForce, [discoverEvent])].map Prod.fst))) := by
  have first := step_line .little oneHost (text "discover h force") .discover 3
    (text "discover") [text "h", text "force"] (by decide +kernel) (by decide) (by decide)
    (by decide) initial
  have second := step_line .little oneHost (text "discover h") .discover 2 (text "discover")
    [text "h"] (by decide +kernel) (by decide) (by decide) (by decide)
    (Command.run .little oneHost 3 [text "h", text "force"] initial .discover).2
  have run := Run.snoc (.snoc .refl
    (show Step .little initial (discoverForce, [discoverEvent]) _ from
      ⟨rfl, first, by decide +kernel⟩))
    (show Step .little _ (discoverAgain, [discoverEvent]) _ from
      ⟨by decide +kernel, second, by decide +kernel⟩)
  exact ⟨_, run, forced_iff run⟩

/-! ## The list of hosts -/

@[simp] theorem ipList_sendIf (sends : Bool) (type : Nat) (used : UInt32) (size : Nat)
    (sh : Shell) : (sh.sendIf sends type used size).ipList = sh.ipList := by
  unfold Shell.sendIf
  split <;> rfl

theorem discoverLoop_ipList (env : Env) (skip x : Nat) (args : List (List UInt8)) (done : Int)
    (sh : Shell) : (discoverLoop o env skip x args done sh).2.ipList = sh.ipList := by
  induction args generalizing x done sh with
  | nil => rfl
  | cons arg args ih =>
    rw [discoverLoop]
    split
    · exact ih _ _ _
    · split
      next => rfl
      next => exact ih _ _ _
      next => rw [ih, ipList_sendIf]; rfl

theorem run_ipList {c : Command} (env : Env) (argc : Int) (args : List (List UInt8)) (sh : Shell) :
    (c.run o env argc args sh).2.ipList = if c = .delcache then [] else sh.ipList := by
  cases c with
  | force | help | summary | quit | delcache => rfl
  | discover =>
    change (doDiscover o env argc args sh).2.ipList = sh.ipList
    unfold doDiscover
    split
    · rfl
    · rw [discoverLoop_ipList]
      split <;> rfl
  | setDiscoverRetries =>
    change (doSetDiscoverRetries o env argc args sh).2.ipList = sh.ipList
    unfold doSetDiscoverRetries
    split
    · rfl
    · split_ifs
      · rfl
      · rfl
      · exact ipList_sendIf ..
  | os =>
    change (doOsScanCommand env argc args sh).2.ipList = sh.ipList
    unfold doOsScanCommand
    split
    · rfl
    · split_ifs
      · rfl
      · exact ipList_sendIf ..
  | login => exact ipList_sendIf ..

/-- A command other than `force` comes to itself. -/
theorem executes_run {word : List UInt8} {words : List (List UInt8)} {c c' : Command}
    (found : findCommand word = some c) (other : c ≠ .force) :
    Executes argc (word :: words) c' ↔ c' = c := by
  constructor
  · intro executes
    cases executes with
    | command found' _ => exact Option.some.inj (found'.symm.trans found)
    | force found' _ _ _ => exact absurd (Option.some.inj (found.symm.trans found')) other
  · rintro rfl
    exact .command found other

theorem executes_force {word : List UInt8} {words toks : List (List UInt8)} {cnt : Int}
    {c : Command} (found : findCommand word = some .force) (enough : ¬ argc < 2)
    (split : tokenize (joined words) = some (cnt, toks)) :
    Executes argc (word :: words) c ↔ Executes cnt toks c := by
  constructor
  · intro executes
    cases executes with
    | command found' other => exact absurd (Option.some.inj (found'.symm.trans found)) other
    | force _ _ split' inner =>
      obtain ⟨rfl, rfl⟩ := Prod.mk.inj (Option.some.inj (split.symm.trans split'))
      exact inner
  · exact .force found enough split

/-- The list is deleted if the command comes to `delcache`, and otherwise kept. -/
theorem executeCommand_ipList (run : executeCommand o env argc argv sh = some (n, sh')) :
    (Executes argc argv .delcache → sh'.ipList = []) ∧
      (¬ Executes argc argv .delcache → sh'.ipList = sh.ipList) := by
  induction hsize : size argv using Nat.strongRecOn generalizing argv argc sh n sh' with
  | _ m ih =>
    cases argv with
    | nil =>
      rw [executeCommand] at run
      cases run
    | cons word words =>
      cases found : findCommand word with
      | none =>
        rw [executeCommand_none found] at run
        cases run
        refine ⟨fun executes => ?_, fun _ => rfl⟩
        cases executes with
        | command found' _ => simp [found] at found'
        | force found' _ _ _ => simp [found] at found'
      | some c =>
        by_cases force : c = .force
        case pos =>
          subst force
          obtain ⟨enough, cnt, toks, n', sh'', split, shorter, inner, rfl, rfl⟩ :=
            executeCommand_force_inv found run
          rw [executes_force found enough split]
          have rest := ih _ (hsize ▸ shorter) inner rfl
          exact rest
        case neg =>
          rw [executeCommand_run found force] at run
          have list := run_ipList (o := o) (c := c) env argc words sh
          rw [Option.some.inj run] at list
          rw [executes_run found force, list]
          exact ⟨fun same => if_pos same.symm, fun same => if_neg (Ne.symm same)⟩

/-- The list of hosts after a step. -/
theorem step_ipList (run : step o sh i = some sh') :
    (sh.ipList.Nodup → sh'.ipList.Nodup) ∧
      ∀ ip, ip ∈ sh'.ipList ↔ i = .discovered ip ∨ ip ∈ sh.ipList ∧ ¬ i.Deletes := by
  have idle (none : i.words = []) (kept : sh'.ipList = sh.ipList)
      (other : ∀ ip, i ≠ .discovered ip) :
      (sh.ipList.Nodup → sh'.ipList.Nodup) ∧
        ∀ ip, ip ∈ sh'.ipList ↔ i = .discovered ip ∨ ip ∈ sh.ipList ∧ ¬ i.Deletes := by
    have keeps : ¬ i.Deletes := fun deletes => by
      rw [Input.Deletes, none] at deletes
      cases deletes
    rw [kept]
    exact ⟨id, fun ip => by simp [keeps, other ip]⟩
  cases i with
  | line env line =>
    rcases handleCommand_inv run with ⟨none, rfl⟩ | ⟨n, run⟩
    · exact idle none rfl fun ip => by simp
    · obtain ⟨deletes, keeps⟩ := executeCommand_ipList run
      by_cases deleted : (Input.line env line).Deletes
      · rw [deletes deleted]
        exact ⟨fun _ => List.nodup_nil, fun ip => by simp [deleted]⟩
      · rw [keeps deleted]
        exact ⟨id, fun ip => by simp [deleted]⟩
  | discovered ip =>
    obtain rfl := Option.some.inj run
    have keeps : ¬ (Input.discovered ip).Deletes := fun deletes => by cases deletes
    unfold addToDiscoveredList
    split
    next known =>
      refine ⟨id, fun ip' => ?_⟩
      simp only [keeps, not_false_eq_true, and_true, Input.discovered.injEq]
      constructor
      · exact .inr
      · rintro (rfl | member)
        · exact known
        · exact member
    next new =>
      refine ⟨fun nodup => List.nodup_cons.mpr ⟨new, nodup⟩, fun ip' => ?_⟩
      simp [keeps, eq_comm]
  | authenticated =>
    obtain rfl := Option.some.inj run
    exact idle rfl rfl fun ip => by simp
  | refused username password sends =>
    change (if username.length < 80 ∧ password.length < 80 then _ else none) = some sh' at run
    split at run
    · obtain rfl := Option.some.inj run
      exact idle rfl (ipList_sendIf ..) fun ip => by simp
    · cases run

/-- The list has every host that has been discovered since it was deleted, and has it once. -/
theorem discovered_iff (run : Run (Step o) initial history sh) :
    sh.ipList.Nodup ∧ ∀ ip, ip ∈ sh.ipList ↔
      Since (· = .discovered ip) Input.Deletes (history.map Prod.fst) := by
  induction run with
  | refl => exact ⟨List.nodup_nil, fun ip => iff_of_false (by simp [initial]) since_nil⟩
  | snoc _ hstep ih =>
    obtain ⟨nodup, members⟩ := step_ipList hstep.2.1
    refine ⟨nodup ih.1, fun ip => ?_⟩
    rw [members, ih.2, List.map_append, List.map_singleton, since_snoc]

/-- Two hosts are discovered, and the list is deleted in between. -/
theorem discovered_iff_deleted :
    ∃ sh, Run (Step .little) initial
      [(.discovered 5, []), (.line oneHost (text "delcache"), []), (.discovered 7, [])] sh ∧
    sh.ipList.Nodup ∧ ∀ ip, ip ∈ sh.ipList ↔
      Since (· = .discovered ip) Input.Deletes
        [.discovered 5, .line oneHost (text "delcache"), .discovered 7] := by
  have delete := step_line .little oneHost (text "delcache") .delcache 1 (text "delcache") []
    (by decide +kernel) (by decide) (by decide) (by decide) (addToDiscoveredList 5 initial)
  have run := Run.snoc (.snoc (.snoc .refl
    (show Step .little initial (.discovered 5, []) _ from ⟨rfl, rfl, rfl⟩))
    (show Step .little _ (.line oneHost (text "delcache"), []) _ from ⟨rfl, delete, rfl⟩))
    (show Step .little _ (.discovered 7, []) _ from ⟨rfl, rfl, rfl⟩)
  exact ⟨_, run, discovered_iff run⟩

end Cheops.Sh
