import Cheops.OsScan.Arrival

/-! # The command of a service (`gui-service.c`)

`run_command_callback` copies a command template into `buf[1024]`.  Of the text in front of each
percent sign it makes one copy, if there is any; the percent signs that begin no directive are
copied together with that text.  Where there is none they are left out.

`runCommandCallback_iff` compares the command with the expansion of the template.
-/

namespace Cheops.Gui

open Cheops.Lib Cheops.OsScan

def percent : UInt8 := 37

def sizeofBuf : Nat := 1024

/-! ## What is substituted -/

/-- The host, the service, and what the user enters in the dialogs, one after the other.  A dialog
    that is cancelled has no text. -/
structure Substitutes where
  order : ByteOrder
  ip : Nat
  port : Int
  makeUsernameDialog : Nat → Option (List UInt8)
  makePasswordDialog : Nat → Option (List UInt8)

def printInt (x : Int) : List UInt8 := text (toString x)

/-! ## Building the command -/

/-- The string in `buf`, the offsets of `buf` that have been written, and how many dialogs the
    user has seen. -/
structure Building where
  buf : List UInt8
  writes : List Nat
  dialogs : Nat

namespace Building

def strcat (s : List UInt8) (c : Building) : Building :=
  { c with buf := c.buf ++ s, writes := c.writes ++ List.range' c.buf.length (s.length + 1) }

def copy (s : List UInt8) (c : Building) : Building := if s = [] then c else c.strcat s

def dialog (answer : Nat → Option (List UInt8)) (c : Building) : Building :=
  match answer c.dialogs with
  | some str => { c.strcat str with dialogs := c.dialogs + 1 }
  | none => { c with dialogs := c.dialogs + 1 }

end Building

/-- The loop of `run_command_callback`, from `b` on; `strstr` splits the rest of the template. -/
def runCommandLoop (v : Substitutes) : Nat → List UInt8 → Building → Option Building
  | 0, _, _ => none
  | fuel + 1, b, s =>
    let front := b.takeWhile (· ≠ percent)
    match b.dropWhile (· ≠ percent) with
    | [] => some (s.strcat b)
    | _ :: 105 :: rest =>
      runCommandLoop v fuel rest ((s.copy front).strcat (ip2strOn v.order v.ip))
    | _ :: 112 :: rest => runCommandLoop v fuel rest ((s.copy front).strcat (printInt v.port))
    | _ :: 117 :: rest =>
      runCommandLoop v fuel rest ((s.copy front).dialog v.makeUsernameDialog)
    | _ :: 80 :: rest =>
      runCommandLoop v fuel rest ((s.copy front).dialog v.makePasswordDialog)
    | c :: rest =>
      runCommandLoop v fuel rest (if front = [] then s else s.strcat (front ++ [c]))

/-- `run_command_callback`; the new thread's command is a copy of `buf`. -/
def runCommandCallback (v : Substitutes) (string : List UInt8) : Option Building :=
  runCommandLoop v (string.length + 1) string { buf := [], writes := [0], dialogs := 0 }

/-! ## The expansion -/

/-- The letter of a directive: what stands for it, and how many dialogs there have been then. -/
def directive (v : Substitutes) (dialogs : Nat) (letter : UInt8) : Option (List UInt8 × Nat) :=
  if letter = 105 then some (ip2strOn v.order v.ip, dialogs)
  else if letter = 112 then some (printInt v.port, dialogs)
  else if letter = 117 then some ((v.makeUsernameDialog dialogs).getD [], dialogs + 1)
  else if letter = 80 then some ((v.makePasswordDialog dialogs).getD [], dialogs + 1)
  else none

def expand (v : Substitutes) : Nat → List UInt8 → List UInt8
  | _, [] => []
  | _, [c] => [c]
  | dialogs, c :: d :: rest =>
    if c = percent then
      match directive v dialogs d with
      | some (value, dialogs) => value ++ expand v dialogs rest
      | none => c :: expand v dialogs (d :: rest)
    else c :: expand v dialogs (d :: rest)

def IsDirective (letter : UInt8) : Prop :=
  letter = 105 ∨ letter = 112 ∨ letter = 117 ∨ letter = 80

instance (letter : UInt8) : Decidable (IsDirective letter) := inferInstanceAs (Decidable (_ ∨ _))

/-- No text stands right in front: it is the beginning of the template, or there is another percent
    sign or a directive. -/
def Bare (before : List UInt8) : Prop :=
  before = [] ∨ [percent] <:+ before ∨ ∃ d, IsDirective d ∧ [percent, d] <:+ before

/-- No letter of a directive comes next. -/
def Stray (after : List UInt8) : Prop := ∀ d ∈ after.head?, ¬ IsDirective d

/-- A percent sign that begins no directive has no text in front of it. -/
def HasBarePercent (string : List UInt8) : Prop :=
  ∃ before after, string = before ++ percent :: after ∧ Stray after ∧ Bare before

/-! ## Bare percent signs -/

section Bare

variable {v : Substitutes} {fresh : Bool} {dialogs : Nat} {c d : UInt8}
  {b front before after : List UInt8}

/-- How many percent signs have no text in front, where `fresh` says so of the beginning. -/
def lost : Bool → List UInt8 → Nat
  | _, [] => 0
  | fresh, [c] => if c = percent ∧ fresh then 1 else 0
  | fresh, c :: d :: rest =>
    if c ≠ percent then lost false (d :: rest)
    else if IsDirective d then lost true rest
    else fresh.toNat + lost true (d :: rest)

theorem directive_eq_none : directive v dialogs d = none ↔ ¬ IsDirective d := by
  unfold directive IsDirective
  split_ifs <;> simp_all

theorem lost_cons (other : c ≠ percent) : lost fresh (c :: b) = lost false b := by
  cases b with
  | nil => simp [lost, other]
  | cons d rest => rw [lost, if_pos other]

theorem lost_stray (stray : Stray b) : lost fresh (percent :: b) = fresh.toNat + lost true b := by
  cases b with
  | nil => cases fresh <;> rfl
  | cons d rest => rw [lost, if_neg (fun h => h rfl), if_neg (stray d rfl)]

theorem lost_directive (letter : IsDirective d) : lost fresh (percent :: d :: b) = lost true b := by
  rw [lost, if_neg (fun h => h rfl), if_pos letter]

theorem lost_text (text : percent ∉ front) :
    lost fresh (front ++ b) = lost (fresh && front.isEmpty) b := by
  induction front generalizing fresh with
  | nil => rw [List.nil_append, List.isEmpty_nil, Bool.and_true]
  | cons c front ih =>
    rw [List.mem_cons, not_or] at text
    rw [List.cons_append, lost_cons (Ne.symm text.1), ih text.2, List.isEmpty_cons, Bool.false_and,
      Bool.and_false]

theorem expand_cons (other : c ≠ percent) :
    expand v dialogs (c :: b) = c :: expand v dialogs b := by
  cases b with
  | nil => rfl
  | cons d rest => rw [expand, if_neg other]

theorem expand_stray (stray : Stray b) :
    expand v dialogs (percent :: b) = percent :: expand v dialogs b := by
  cases b with
  | nil => rfl
  | cons d rest => rw [expand, if_pos rfl, directive_eq_none.mpr (stray d rfl)]

theorem expand_directive {value : List UInt8} {dialogs' : Nat}
    (found : directive v dialogs d = some (value, dialogs')) :
    expand v dialogs (percent :: d :: b) = value ++ expand v dialogs' b := by
  rw [expand, if_pos rfl, found]

theorem expand_text (text : percent ∉ front) :
    expand v dialogs (front ++ b) = front ++ expand v dialogs b := by
  induction front with
  | nil => rfl
  | cons c front ih =>
    rw [List.mem_cons, not_or] at text
    rw [List.cons_append, expand_cons (Ne.symm text.1), ih text.2, List.cons_append]

/-- `Bare` within a template, where `fresh` says so of its beginning. -/
def BareAfter (fresh : Bool) (before : List UInt8) : Prop :=
  (fresh = true ∧ before = []) ∨ [percent] <:+ before ∨
    ∃ d, IsDirective d ∧ [percent, d] <:+ before

theorem bareAfter_true : BareAfter true before ↔ Bare before := by simp [BareAfter, Bare]

theorem bareAfter_cons (other : c ≠ percent) :
    BareAfter fresh (c :: before) ↔ BareAfter false before := by
  simp [BareAfter, List.suffix_cons_iff, Ne.symm other]

theorem bareAfter_directive (letter : IsDirective d) :
    BareAfter fresh (percent :: d :: before) ↔ BareAfter true before := by
  have other : d ≠ percent := by
    rintro rfl
    exact absurd letter (by decide)
  simp only [BareAfter, List.suffix_cons_iff, List.cons.injEq, reduceCtorEq, and_false, false_or,
    true_and, Ne.symm other, false_and]
  constructor
  · rintro (once | ⟨e, isDirective, ⟨rfl, rfl⟩ | later⟩)
    · exact .inr (.inl once)
    · exact .inl rfl
    · exact .inr (.inr ⟨e, isDirective, later⟩)
  · rintro (rfl | once | ⟨e, isDirective, later⟩)
    · exact .inr ⟨d, letter, .inl ⟨rfl, rfl⟩⟩
    · exact .inl once
    · exact .inr ⟨e, isDirective, .inr later⟩

theorem bareAfter_stray (stray : Stray (before ++ percent :: after)) :
    BareAfter fresh (percent :: before) ↔ BareAfter true before := by
  simp only [BareAfter, List.suffix_cons_iff, List.cons.injEq, reduceCtorEq, and_false, false_or,
    true_and]
  constructor
  · rintro ((none | once) | ⟨e, isDirective, next | later⟩)
    · exact .inl none.symm
    · exact .inr (.inl once)
    · rw [← next] at stray
      exact absurd isDirective (stray e rfl)
    · exact .inr (.inr ⟨e, isDirective, later⟩)
  · rintro (rfl | once | ⟨e, isDirective, later⟩)
    · exact .inl (.inl rfl)
    · exact .inl (.inr once)
    · exact .inr ⟨e, isDirective, .inr later⟩

theorem lost_eq_zero (fresh : Bool) (b : List UInt8) :
    lost fresh b = 0 ↔
      ∀ before after, b = before ++ percent :: after → Stray after → ¬ BareAfter fresh before := by
  fun_induction lost fresh b with
  | case1 => simp
  | case2 fresh c bare =>
    obtain ⟨rfl, rfl⟩ := bare
    refine iff_of_false Nat.one_ne_zero fun kept => ?_
    exact kept [] [] rfl (fun _ none => by cases none) (.inl ⟨rfl, rfl⟩)
  | case3 fresh c kept =>
    refine iff_of_true rfl fun before after split _ bare => ?_
    cases before with
    | nil =>
      obtain ⟨rfl, -⟩ := List.cons.inj split
      rcases bare with ⟨rfl, -⟩ | once | ⟨d, -, once⟩
      · exact kept ⟨rfl, rfl⟩
      · exact absurd (List.suffix_nil.mp once) (List.cons_ne_nil _ _)
      · exact absurd (List.suffix_nil.mp once) (List.cons_ne_nil _ _)
    | cons x before => simp at split
  | case4 fresh c d rest other ih =>
    rw [ih]
    constructor
    · intro kept before after split stray bare
      cases before with
      | nil => exact other (List.cons.inj split).1
      | cons x before =>
        obtain ⟨rfl, later⟩ := List.cons.inj split
        exact kept before after later stray ((bareAfter_cons other).mp bare)
    · intro kept before after split stray bare
      exact kept (c :: before) after (by rw [split]; rfl) stray ((bareAfter_cons other).mpr bare)
  -- a directive: a split inside of it is no stray percent sign
  | case5 fresh c d rest same letter ih =>
    obtain rfl : c = percent := not_not.mp same
    rw [ih]
    constructor
    · intro kept before after split stray bare
      match before, split, bare with
      | [], split, _ =>
        obtain ⟨-, rfl⟩ := List.cons.inj split
        exact stray d rfl letter
      | [x], split, _ =>
        simp only [List.cons_append, List.nil_append, List.cons.injEq] at split
        rw [split.2.1] at letter
        exact absurd letter (by decide)
      | x :: y :: before, split, bare =>
        simp only [List.cons_append, List.cons.injEq] at split
        obtain ⟨rfl, rfl, rfl⟩ := split
        exact kept before after rfl stray ((bareAfter_directive letter).mp bare)
    · intro kept before after split stray bare
      exact kept (percent :: d :: before) after (by rw [split]; rfl) stray
        ((bareAfter_directive letter).mpr bare)
  | case6 fresh c d rest same letter ih =>
    obtain rfl : c = percent := not_not.mp same
    have here : Stray (d :: rest) := by
      rintro e ⟨⟩
      exact letter
    rw [Nat.add_eq_zero_iff, ih]
    constructor
    · rintro ⟨old, kept⟩ before after split stray bare
      cases before with
      | nil => simp_all [BareAfter]
      | cons x before =>
        obtain ⟨rfl, later⟩ := List.cons.inj split
        have rest_eq : d :: rest = before ++ percent :: after := later
        rw [rest_eq] at here
        exact kept before after rest_eq stray ((bareAfter_stray here).mp bare)
    · intro kept
      refine ⟨?_, fun before after split stray bare => ?_⟩
      · cases fresh with
        | false => rfl
        | true => exact absurd (.inl ⟨rfl, rfl⟩) (kept [] (d :: rest) rfl here)
      · rw [split] at here
        exact kept (percent :: before) after (by rw [split]; rfl) stray
          ((bareAfter_stray here).mpr bare)

theorem hasBarePercent_iff : HasBarePercent b ↔ lost true b ≠ 0 := by
  rw [ne_eq, lost_eq_zero]
  simp only [HasBarePercent, bareAfter_true, not_forall, not_not, exists_prop]

end Bare

/-! ## The loop -/

section Loop

variable {v : Substitutes} {s s' s'' : Building} {fuel dialogs dialogs' : Nat} {d : UInt8}
  {b front value added added' : List UInt8}

/-- `added` has been put into the buffer, which is written up to its NUL. -/
def Adds (s : Building) (added : List UInt8) (dialogs : Nat) (s' : Building) : Prop :=
  s'.buf = s.buf ++ added ∧ s'.dialogs = dialogs ∧
    ∀ i ∈ s'.writes, i ∈ s.writes ∨ i ≤ s'.buf.length

theorem Adds.refl (s : Building) : Adds s [] s.dialogs s :=
  ⟨(List.append_nil _).symm, rfl, fun _ member => .inl member⟩

theorem Adds.trans (first : Adds s added dialogs s') (second : Adds s' added' dialogs' s'') :
    Adds s (added ++ added') dialogs' s'' := by
  obtain ⟨buf, -, writes⟩ := first
  obtain ⟨buf', counted, writes'⟩ := second
  refine ⟨by rw [buf', buf, List.append_assoc], counted, fun i member => ?_⟩
  rcases writes' i member with early | inside
  · refine (writes i early).imp_right fun inside => ?_
    rw [buf', List.length_append]
    omega
  · exact .inr inside

theorem adds_strcat (s : Building) (added : List UInt8) :
    Adds s added s.dialogs (s.strcat added) := by
  refine ⟨rfl, rfl, fun i member => ?_⟩
  rcases List.mem_append.mp member with early | here
  · exact .inl early
  · rw [List.mem_range'_1] at here
    rw [Building.strcat, List.length_append]
    exact .inr (by omega)

theorem adds_copy (s : Building) (added : List UInt8) :
    Adds s added s.dialogs (s.copy added) := by
  unfold Building.copy
  split
  next none =>
    rw [none]
    exact Adds.refl s
  next => exact adds_strcat s added

theorem adds_dialog (s : Building) (answer : Nat → Option (List UInt8)) :
    Adds s ((answer s.dialogs).getD []) (s.dialogs + 1) (s.dialog answer) := by
  unfold Building.dialog
  cases answer s.dialogs with
  | none => exact ⟨(List.append_nil _).symm, rfl, fun _ member => .inl member⟩
  | some str =>
    obtain ⟨buf, -, writes⟩ := adds_strcat s str
    exact ⟨buf, rfl, writes⟩

theorem dropWhile_percent (text : percent ∉ front) :
    (front ++ percent :: b).takeWhile (· ≠ percent) = front ∧
      (front ++ percent :: b).dropWhile (· ≠ percent) = percent :: b := by
  have other (x : UInt8) (member : x ∈ front) : decide (x ≠ percent) = true :=
    decide_eq_true fun same => text (same ▸ member)
  rw [List.takeWhile_append_of_pos other, List.dropWhile_append_of_pos other]
  simp

/-- The turn that finds a directive. -/
theorem runCommandLoop_directive (fuel : Nat) (b : List UInt8) (text : percent ∉ front)
    (found : directive v s.dialogs d = some (value, dialogs)) :
    ∃ s', runCommandLoop v (fuel + 1) (front ++ percent :: d :: b) s =
        runCommandLoop v fuel b s' ∧ Adds s (front ++ value) dialogs s' := by
  obtain ⟨front_eq, rest_eq⟩ := dropWhile_percent (b := d :: b) text
  have copied := adds_copy s front
  have counted : (s.copy front).dialogs = s.dialogs := copied.2.1
  unfold directive at found
  rw [runCommandLoop, front_eq, rest_eq]
  split_ifs at found with i p u P
  · obtain ⟨rfl, rfl⟩ := found
    subst i
    exact ⟨_, rfl, copied.trans (counted ▸ adds_strcat _ _)⟩
  · obtain ⟨rfl, rfl⟩ := found
    subst p
    exact ⟨_, rfl, copied.trans (counted ▸ adds_strcat _ _)⟩
  · obtain ⟨rfl, rfl⟩ := found
    subst u
    exact ⟨_, rfl, copied.trans (counted ▸ adds_dialog _ _)⟩
  · obtain ⟨rfl, rfl⟩ := found
    subst P
    exact ⟨_, rfl, copied.trans (counted ▸ adds_dialog _ _)⟩

/-- The turn that finds another percent sign leaves it out where it is bare. -/
theorem runCommandLoop_stray (v : Substitutes) (fuel : Nat) (s : Building)
    (text : percent ∉ front) (stray : Stray b) :
    ∃ s', runCommandLoop v (fuel + 1) (front ++ percent :: b) s = runCommandLoop v fuel b s' ∧
      Adds s (if front = [] then [] else front ++ [percent]) s.dialogs s' := by
  obtain ⟨front_eq, rest_eq⟩ := dropWhile_percent (b := b) text
  have default : runCommandLoop v (fuel + 1) (front ++ percent :: b) s =
      runCommandLoop v fuel b (if front = [] then s else s.strcat (front ++ [percent])) := by
    rw [runCommandLoop, front_eq, rest_eq]
    split
    next => contradiction
    all_goals simp_all [Stray, IsDirective]
  refine ⟨_, default, ?_⟩
  split
  next => exact Adds.refl s
  next => exact adds_strcat s _

/-- What the loop has added when it ends: the expansion of `b`, less the bare percent signs. -/
structure Ends (v : Substitutes) (s : Building) (b : List UInt8) (r : Building) : Prop where
  grows : s.buf.length ≤ r.buf.length
  length : r.buf.length + lost true b = s.buf.length + (expand v s.dialogs b).length
  whole : lost true b = 0 → r.buf = s.buf ++ expand v s.dialogs b
  inside : ∀ i ∈ r.writes, i ∈ s.writes ∨ i ≤ r.buf.length
  last : r.buf.length ∈ r.writes

/-- A turn that goes on with `rest`. -/
theorem Ends.of_adds {rest : List UInt8} {r : Building} (missing : Nat)
    (adds : Adds s added dialogs s') (ends : Ends v s' rest r)
    (lost_eq : lost true b = missing + lost true rest)
    (length_eq : (expand v s.dialogs b).length =
      missing + added.length + (expand v dialogs rest).length)
    (whole_eq : missing = 0 → expand v s.dialogs b = added ++ expand v dialogs rest) :
    Ends v s b r := by
  obtain ⟨buf, counted, writes⟩ := adds
  obtain ⟨grows, length, whole, inside, last⟩ := ends
  have longer : s'.buf.length = s.buf.length + added.length := by rw [buf, List.length_append]
  rw [counted] at length
  refine ⟨by omega, by omega, fun kept => ?_, fun i member => ?_, last⟩
  · rw [whole (by omega), whole_eq (by omega), buf, counted, List.append_assoc]
  · rcases inside i member with early | here
    · exact (writes i early).imp_right fun here => by omega
    · exact .inr here

theorem runCommandLoop_spec (v : Substitutes) (fuel : Nat) (b : List UInt8) (s : Building)
    (enough : b.length < fuel) : ∃ r, runCommandLoop v fuel b s = some r ∧ Ends v s b r := by
  induction fuel generalizing b s with
  | zero => exact absurd enough (Nat.not_lt_zero _)
  | succ fuel ih =>
    have front_text : percent ∉ b.takeWhile (· ≠ percent) := by
      intro member
      simpa using List.mem_takeWhile_imp member
    have split_eq : b.takeWhile (· ≠ percent) ++ b.dropWhile (· ≠ percent) = b :=
      List.takeWhile_append_dropWhile
    generalize front_eq : b.takeWhile (· ≠ percent) = front at front_text split_eq
    cases rest_eq : b.dropWhile (· ≠ percent) with
    | nil =>
      rw [rest_eq, List.append_nil] at split_eq
      subst split_eq
      have kept : lost true (front ++ []) = 0 := lost_text front_text
      have same : expand v s.dialogs (front ++ []) = front ++ [] := expand_text front_text
      rw [List.append_nil] at kept same
      obtain ⟨buf, -, writes⟩ := adds_strcat s front
      refine ⟨s.strcat front, by rw [runCommandLoop, rest_eq], ⟨?_, ?_, fun _ => ?_, writes, ?_⟩⟩
      · simp [buf]
      · rw [kept, same, buf, List.length_append]
        rfl
      · rw [same, buf]
      · refine List.mem_append_right _ (List.mem_range'_1.mpr ?_)
        simp [Building.strcat]
    | cons c after =>
      have found : c = percent := by
        have stop := List.head?_dropWhile_not (· ≠ percent) b
        rw [rest_eq] at stop
        simpa using stop
      rw [rest_eq, found] at split_eq
      subst split_eq
      rw [List.length_append, List.length_cons] at enough
      by_cases stray : Stray after
      case pos =>
        obtain ⟨s', next, adds⟩ := runCommandLoop_stray v fuel s front_text stray
        obtain ⟨r, returns, ends⟩ := ih after s' (by omega)
        refine ⟨r, next.trans returns, ends.of_adds front.isEmpty.toNat adds ?_ ?_ ?_⟩
        · rw [lost_text front_text, lost_stray stray, Bool.true_and]
        · rw [expand_text front_text, expand_stray stray]
          cases front with
          | nil => simp [Nat.add_comm]
          | cons x front => simp [Nat.add_assoc, Nat.add_comm]
        · intro text
          rw [expand_text front_text, expand_stray stray]
          cases front with
          | nil => simp at text
          | cons x front => simp
      case neg =>
        obtain ⟨d, rest, rfl, letter⟩ : ∃ d rest, after = d :: rest ∧ IsDirective d := by
          cases after with
          | nil => exact absurd (fun _ none => by cases none) stray
          | cons d rest =>
            refine ⟨d, rest, rfl, ?_⟩
            by_contra other
            exact stray fun e head => by cases head; exact other
        obtain ⟨⟨value, dialogs⟩, substituted⟩ : ∃ x, directive v s.dialogs d = some x :=
          Option.ne_none_iff_exists'.mp fun none => directive_eq_none.mp none letter
        obtain ⟨s', next, adds⟩ := runCommandLoop_directive fuel rest front_text substituted
        rw [List.length_cons] at enough
        obtain ⟨r, returns, ends⟩ := ih rest s' (by omega)
        have expands : expand v s.dialogs (front ++ percent :: d :: rest) =
            front ++ value ++ expand v dialogs rest := by
          rw [expand_text front_text, expand_directive substituted, List.append_assoc]
        refine ⟨r, next.trans returns, ends.of_adds 0 adds ?_ ?_ fun _ => expands⟩
        · rw [lost_text front_text, lost_directive letter, Nat.zero_add]
        · rw [expands, List.length_append, Nat.zero_add]

end Loop

/-- The command is the expansion of the template, and is built inside of the buffer, exactly if
    the template has no bare percent sign and the expansion is shorter than the buffer. -/
theorem runCommandCallback_iff (v : Substitutes) (string : List UInt8) :
    (∃ r, runCommandCallback v string = some r ∧ r.buf = expand v 0 string ∧
        ∀ i ∈ r.writes, i < sizeofBuf) ↔
      ¬ HasBarePercent string ∧ (expand v 0 string).length < sizeofBuf := by
  obtain ⟨r, returns, -, length, whole, inside, last⟩ := runCommandLoop_spec v (string.length + 1)
    string { buf := [], writes := [0], dialogs := 0 } (Nat.lt_succ_self _)
  dsimp only at length whole
  rw [List.length_nil, Nat.zero_add] at length
  rw [hasBarePercent_iff, not_not]
  constructor
  · rintro ⟨r', returns', expanded, bounded⟩
    rw [runCommandCallback, returns] at returns'
    cases returns'
    have fits := bounded _ last
    rw [expanded] at length fits
    exact ⟨by omega, fits⟩
  · rintro ⟨kept, fits⟩
    have expanded := whole kept
    rw [List.nil_append] at expanded
    refine ⟨r, returns, expanded, fun i member => ?_⟩
    rcases inside i member with start | le
    · rw [List.mem_singleton.mp start]
      decide
    · rw [expanded] at le
      exact Nat.lt_of_le_of_lt le fits

/-- The percent sign behind a directive is left out of `ping -n%p% host`. -/
theorem runCommandCallback_loses_percent :
    ¬ ∃ r, runCommandCallback
        { order := .little, ip := 0, port := 5, makeUsernameDialog := fun _ => none,
          makePasswordDialog := fun _ => none } (text "ping -n%p% host") = some r ∧
      r.buf = expand
        { order := .little, ip := 0, port := 5, makeUsernameDialog := fun _ => none,
          makePasswordDialog := fun _ => none } 0 (text "ping -n%p% host") ∧
      ∀ i ∈ r.writes, i < sizeofBuf := by
  rintro ⟨r, returns, built, -⟩
  have command : (runCommandCallback
      { order := .little, ip := 0, port := 5, makeUsernameDialog := fun _ => none,
        makePasswordDialog := fun _ => none } (text "ping -n%p% host")).map Building.buf =
      some (text "ping -n5 host") := by decide
  rw [returns, Option.map_some, built] at command
  exact absurd command (by decide)

end Cheops.Gui
