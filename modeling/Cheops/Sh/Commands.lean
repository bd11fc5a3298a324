import Cheops.Event.Register
import Cheops.Fields.Network
import Cheops.Lib.CString
import Cheops.Misc.Parse

/-! # The commands of the shell (`cheops-sh-guts.c`, `cheops-sh.c`)

`handle_command` splits a line and `execute_command` looks up its first word.  The commands build
their events in one static buffer; what they do not store there is left over from the event before.
What the shell prints is left out.

`force` joins the words behind it and splits them once more, so that a command can run `force`
again.
-/

namespace Cheops.Sh

open Cheops.Lib Cheops.Event Cheops.Fields Cheops.Misc

def FLAG_FORCE : UInt32 := 1
def MAX_TOKENS : Nat := 80
def MAX_ALLOWABLE_DISCOVER_RETRIES : Int := 5
def SET_DISCOVER_RETRIES : Nat := 1

/-- An event that has been sent.  Its flags are sent as the host keeps them. -/
structure SentEvent where
  type : Nat
  flags : UInt32
  event : List UInt8
deriving DecidableEq

/-- The static variables: the event in `ebuf`, `flags` and `IPList`; and what has been sent. -/
structure Shell where
  ee : Mem
  flags : UInt32
  ipList : List Nat
  sent : List SentEvent
  running : Bool

def initial : Shell where
  ee := fun _ => 0
  flags := 0
  ipList := []
  sent := []
  running := true

/-- What a command depends on: the `s_addr` that `get_host` stores, and whether `event_send` returns
    no negative number for the argument with the given index. -/
structure Env where
  getHost : List UInt8 → Option Nat
  eventSend : Nat → Bool

def Shell.setEvent (ee : Mem) (sh : Shell) : Shell := { sh with ee }

def Shell.send (type : Nat) (flags : UInt32) (n : Nat) (sh : Shell) : Shell :=
  { sh with sent := sh.sent ++ [⟨type, flags, slice sh.ee 0 n⟩] }

def Shell.sendIf (sends : Bool) (type : Nat) (flags : UInt32) (n : Nat) (sh : Shell) : Shell :=
  if sends then sh.send type flags n else sh

/-- `flags |= FLAG_FORCE` and `flags &= ~FLAG_FORCE`. -/
def Shell.raise (sh : Shell) : Shell := { sh with flags := sh.flags ||| FLAG_FORCE }
def Shell.lower (sh : Shell) : Shell := { sh with flags := sh.flags &&& ~~~FLAG_FORCE }

/-! ## `discover` -/

/-- What the loop of `do_discover` makes of an argument: a range, nothing (`continue`), or the end
    of the command (`return(0)`). -/
inductive Target where
  | range (start end_ : Nat)
  | invalid
  | stop
deriving DecidableEq

/-- A host without an address ends the command if it stands in front of a netmask. -/
def target (o : ByteOrder) (env : Env) (arg : List UInt8) : Target :=
  match strchr arg 47 with
  | some c =>
    match env.getHost (arg.take c) with
    | none => .stop
    | some s =>
      match shNetwork o s (arg.drop (c + 1)) with
      | none => .invalid
      | some (start, end_) => .range start end_
  | none =>
    match env.getHost arg with
    | none => .invalid
    | some s => .range (o.ntoh 4 s) (o.ntoh 4 s)

/-- The second loop of `do_discover`, from the argument with index `x` on. -/
def discoverLoop (o : ByteOrder) (env : Env) (skip : Nat) :
    Nat → List (List UInt8) → Int → Shell → Int × Shell
  | _, [], done, sh => (done, sh)
  | x, arg :: args, done, sh =>
    if x = skip then discoverLoop o env skip (x + 1) args done sh
    else
      match target o env arg with
      | .stop => (0, sh)
      | .invalid => discoverLoop o env skip (x + 1) args done sh
      | .range start end_ =>
        discoverLoop o env skip (x + 1) args (if env.eventSend x then 0 else done)
          ((sh.setEvent (shDoDiscover o start end_ sh.ee)).sendIf (env.eventSend x)
            EVENT_DISCOVER_IPV4 sh.flags 24)

/-- The first loop of `do_discover`: the index of the last `force`, or `argc`. -/
def skipped : Nat → List (List UInt8) → Nat → Nat
  | _, [], skip => skip
  | x, arg :: args, skip => skipped (x + 1) args (if arg = text "force" then x else skip)

/-- `args` are the words behind `argv[0]`. -/
def doDiscover (o : ByteOrder) (env : Env) (argc : Int) (args : List (List UInt8)) (sh : Shell) :
    Int × Shell :=
  if argc < 2 then (0, sh)
  else
    discoverLoop o env (skipped 1 args (args.length + 1)) 1 args (-1)
      (if args.contains (text "force") then sh.raise else sh)

/-! ## The other commands -/

def doSetDiscoverRetries (o : ByteOrder) (env : Env) (argc : Int) (args : List (List UInt8))
    (sh : Shell) : Int × Shell :=
  match args with
  | [] => (0, sh)
  | arg :: _ =>
    if argc < 2 then (0, sh)
    else if atoi arg > MAX_ALLOWABLE_DISCOVER_RETRIES ∨ atoi arg < 0 then (0, sh)
    else
      (0, (sh.setEvent (o.put 4 (o.put 4 sh.ee 4 (atoi arg).toNat) 0 SET_DISCOVER_RETRIES)).sendIf
        (env.eventSend 0) EVENT_SET_SETTINGS sh.flags 8)

/-- `do_os_scan_command`, which counts the bytes of the host and does not store them. -/
def doOsScanCommand (env : Env) (argc : Int) (args : List (List UInt8)) (sh : Shell) :
    Int × Shell :=
  match args with
  | [] => (0, sh)
  | arg :: _ =>
    if argc < 2 then (0, sh)
    else (0, sh.sendIf (env.eventSend 0) EVENT_OS_SCAN sh.flags (24 + arg.length + 1))

/-- `do_auth_request_command`, which stores nothing either. -/
def doAuthRequestCommand (env : Env) (sh : Shell) : Int × Shell :=
  (0, sh.sendIf (env.eventSend 0) EVENT_AUTH_REQUEST 0 70)

def deleteIpList (sh : Shell) : Int × Shell := (0, { sh with ipList := [] })

def doQuit (sh : Shell) : Int × Shell := (0, { sh with running := false })

/-- The two `strcpy` of `send_auth_request`; each of the fields has 35 bytes. -/
def credentials (username password : List UInt8) (ee : Mem) : Mem :=
  store (store ee 0 (username ++ [0])) 35 (password ++ [0])

/-- `send_auth_request`, with strings that have no NUL. -/
def sendAuthRequest (username password : List UInt8) (sends : Bool) (sh : Shell) : Shell :=
  (sh.setEvent (credentials username password sh.ee)).sendIf sends EVENT_AUTH_REQUEST 0 70

def addToDiscoveredList (ip : Nat) (sh : Shell) : Shell :=
  if ip ∈ sh.ipList then sh else { sh with ipList := ip :: sh.ipList }

/-! ## `execute_command` -/

/-- The functions in `commands`. -/
inductive Command where
  | help
  | force
  | discover
  | setDiscoverRetries
  | quit
  | summary
  | delcache
  | os
  | login
deriving DecidableEq

def commands : List (List UInt8 × Command) :=
  [(text "help", .help), (text "force", .force), (text "discover", .discover),
   (text "setdiscoverretries", .setDiscoverRetries), (text "quit", .quit),
   (text "summary", .summary), (text "delcache", .delcache), (text "os", .os),
   (text "login", .login)]

/-- The loop of `execute_command`. -/
def findCommand (word : List UInt8) : Option Command :=
  (commands.find? fun c => SameIgnoringCase word c.1).map Prod.snd

/-- What a command other than `force` does and returns. -/
def Command.run (o : ByteOrder) (env : Env) (argc : Int) (args : List (List UInt8)) (sh : Shell) :
    Command → Int × Shell
  | .help | .summary | .force => (0, sh)
  | .discover => doDiscover o env argc args sh
  | .setDiscoverRetries => doSetDiscoverRetries o env argc args sh
  | .quit => doQuit sh
  | .delcache => deleteIpList sh
  | .os => doOsScanCommand env argc args sh
  | .login => doAuthRequestCommand env sh

/-- `parse(toks, MAX_TOKENS, s)`: what it returns, and the strings that it stores pointers to.  It
    does not look at `MAX_TOKENS`, so it is undefined for more of them. -/
def tokenize (s : List UInt8) : Option (Int × List (List UInt8)) :=
  if (produced (some []) false s).length ≤ MAX_TOKENS then
    some (if opened s then -1 else (produced (some []) false s).length, produced (some []) false s)
  else none

/-- `parse` finds these strings in memory, and stores no pointer behind `toks`. -/
theorem tokenize_parse {memory : Mem} {a fuel : Nat} {s : List UInt8} {cnt : Int}
    {toks : List (List UInt8)} (argv : Nat → Nat) (split : tokenize s = some (cnt, toks))
    (stands : StandsAt memory a (s ++ [0])) (nul : 0 ∉ s) (enough : s.length < fuel) :
    ∃ r, parse fuel argv MAX_TOKENS a memory = some (cnt, r) ∧
      (∀ k t, toks[k]? = some t → IsString r.memory (r.argv k) t) ∧
      ∀ k ∈ r.stores, k < MAX_TOKENS := by
  unfold tokenize at split
  split at split
  case isFalse => cases split
  case isTrue few =>
    obtain ⟨rfl, rfl⟩ := Prod.mk.inj (Option.some.inj split)
    obtain ⟨r, returns, left⟩ := parse_spec argv MAX_TOKENS stands nul enough
    rw [left.count] at returns
    refine ⟨r, returns, left.strings, fun k member => ?_⟩
    have before := (left.stores k).mp member
    rw [left.count] at before
    omega

/-- The string that `do_force` makes of the words behind `force`. -/
def joined (words : List (List UInt8)) : List UInt8 := words.flatMap (· ++ [32])

def size (words : List (List UInt8)) : Nat := (words.map fun w => w.length + 1).sum

@[simp] theorem size_nil : size [] = 0 := rfl

@[simp] theorem size_cons (w : List UInt8) (words : List (List UInt8)) :
    size (w :: words) = w.length + 1 + size words := List.sum_cons

theorem length_joined (words : List (List UInt8)) : (joined words).length = size words := by
  induction words with
  | nil => rfl
  | cons w words ih =>
    rw [size_cons, ← ih, joined, List.flatMap_cons, List.length_append, List.length_append]
    rfl

/-- The string and its NUL fit into the memory that `do_force` has counted for all of `argv`. -/
theorem joined_fits (word : List UInt8) (words : List (List UInt8)) :
    (joined words).length + 1 ≤ size (word :: words) := by
  rw [length_joined, size_cons]
  omega

/-- The strings of a line take no more room than the line. -/
theorem size_produced (current : Option (List UInt8)) (q : Bool) (s : List UInt8) :
    size (produced current q s) ≤ s.length + (current.map List.length).getD 0 + 1 := by
  induction s generalizing current q with
  | nil => cases current <;> simp [produced]
  | cons c s ih =>
    obtain ⟨current', q', out, reads, eq⟩ := produced_cons current q c s
    rw [eq]
    have rest := ih current' q'
    cases reads <;> simp at rest ⊢ <;> omega

theorem tokenize_size {s : List UInt8} {cnt : Int} {toks : List (List UInt8)}
    (split : tokenize s = some (cnt, toks)) : size toks ≤ s.length + 1 := by
  unfold tokenize at split
  split at split
  · cases split
    exact size_produced (some []) false s
  · cases split

theorem length_of_force {word : List UInt8} (found : findCommand word = some .force) :
    word.length = 5 := by
  obtain ⟨⟨name, c⟩, first, same⟩ := Option.map_eq_some_iff.mp found
  obtain rfl : c = .force := same
  have equal : SameIgnoringCase word name := by simpa using List.find?_some first
  have only : ∀ p ∈ commands, p.2 = .force → p.1.length = 5 := by decide
  have length : word.length = name.length := by simpa using congrArg List.length equal
  rw [length]
  exact only _ (List.mem_of_find?_eq_some first) rfl

/-- `execute_command`, with `do_force`.  Where `argc` is -1, `do_force` goes through no words. -/
def executeCommand (o : ByteOrder) (env : Env) (argc : Int) :
    List (List UInt8) → Shell → Option (Int × Shell)
  | [], _ => none
  | word :: words, sh =>
    match _found : findCommand word with
    | none => some (-1, sh)
    | some .force =>
      -- with no words the memory from `malloc` is parsed as it is
      if argc < 2 then none
      else
        match _split : tokenize (joined words) with
        | none => none
        | some (cnt, toks) =>
          (executeCommand o env cnt toks sh.raise).map fun r => (0, r.2.lower)
    | some c => some (c.run o env argc words sh)
termination_by argv => size argv
decreasing_by
  have shorter := tokenize_size _split
  rw [length_joined] at shorter
  rw [size_cons, length_of_force _found]
  omega

section executeCommand

variable {o : ByteOrder} {env : Env} {argc : Int} {word : List UInt8} {words : List (List UInt8)}
  {sh : Shell}

theorem executeCommand_none (found : findCommand word = none) :
    executeCommand o env argc (word :: words) sh = some (-1, sh) := by
  rw [executeCommand]
  split
  · rfl
  · simp_all
  · simp_all

theorem executeCommand_run {c : Command} (found : findCommand word = some c) (other : c ≠ .force) :
    executeCommand o env argc (word :: words) sh = some (c.run o env argc words sh) := by
  rw [executeCommand]
  split
  · simp_all
  · simp_all
  · simp_all

/-- `do_force`. -/
theorem executeCommand_force (found : findCommand word = some .force) :
    executeCommand o env argc (word :: words) sh =
      if argc < 2 then none
      else (tokenize (joined words)).bind fun split =>
        (executeCommand o env split.1 split.2 sh.raise).map fun r => (0, r.2.lower) := by
  rw [executeCommand]
  split
  · simp_all
  · split
    · rfl
    · split <;> simp_all
  · simp_all

end executeCommand

def handleCommand (o : ByteOrder) (env : Env) (line : List UInt8) (sh : Shell) : Option Shell :=
  match tokenize line with
  | none => none
  | some (cnt, toks) =>
    if cnt ≥ 0 then (executeCommand o env cnt toks sh).map Prod.snd else some sh

end Cheops.Sh
