import Cheops.Lib.Bytes

/-! # Numbers and addresses in texts

`strtoul`, `atoi` and `inet_aton` of the C library, on a host with a `long` of 64 bits.  A text is
a list of bytes without its NUL.  A number that `inet_aton` reads is octal or hexadecimal when it
begins like one in C; for `atoi` it is decimal.
-/

namespace Cheops.Lib

/-! ## Digits -/

/-- The value of a digit, 36 for what is none. -/
def digitVal (c : UInt8) : Nat :=
  if 48 ≤ c.toNat ∧ c.toNat ≤ 57 then c.toNat - 48
  else if 97 ≤ c.toNat ∧ c.toNat ≤ 122 then c.toNat - 87
  else if 65 ≤ c.toNat ∧ c.toNat ≤ 90 then c.toNat - 55
  else 36

def isSpace (c : UInt8) : Bool := c == 32 || (9 ≤ c.toNat && c.toNat ≤ 13)

def takeDigits (base : Nat) : Nat → List UInt8 → Nat × List UInt8
  | n, [] => (n, [])
  | n, c :: cs =>
    if digitVal c < base then takeDigits base (n * base + digitVal c) cs else (n, c :: cs)

def digitsValue (base n : Nat) (ds : List UInt8) : Nat :=
  ds.foldl (fun n c => n * base + digitVal c) n

def NoDigit (base : Nat) (rest : List UInt8) : Prop := ∀ c ∈ rest.head?, base ≤ digitVal c

variable {base n : Nat} {ds rest : List UInt8} {c : UInt8}

theorem takeDigits_append (digits : ∀ c ∈ ds, digitVal c < base) (stop : NoDigit base rest) :
    takeDigits base n (ds ++ rest) = (digitsValue base n ds, rest) := by
  induction ds generalizing n with
  | nil =>
    cases rest with
    | nil => rfl
    | cons c rest => exact if_neg (Nat.not_lt.mpr (stop c rfl))
  | cons c ds ih =>
    rw [List.cons_append, takeDigits, if_pos (digits c List.mem_cons_self),
      ih fun x member => digits x (List.mem_cons_of_mem _ member)]
    rfl

theorem takeDigits_all (digits : ∀ c ∈ ds, digitVal c < base) :
    takeDigits base n ds = (digitsValue base n ds, []) := by
  have read : takeDigits base n (ds ++ []) = _ :=
    takeDigits_append digits fun _ member => by cases member
  rwa [List.append_nil] at read

theorem le_digitsValue (positive : 0 < base) (n : Nat) (ds : List UInt8) :
    n ≤ digitsValue base n ds := by
  induction ds generalizing n with
  | nil => exact Nat.le_refl n
  | cons c ds ih =>
    calc n ≤ n * base + digitVal c :=
          Nat.le_trans (Nat.le_mul_of_pos_right n positive) (Nat.le_add_right _ _)
      _ ≤ digitsValue base (n * base + digitVal c) ds := ih _

/-- In a smaller base the digits make a smaller number. -/
theorem takeDigits_le {base' n' : Nat} (positive : 0 < base') (smaller : base ≤ base')
    (before : n ≤ n') : (takeDigits base n ds).1 ≤ digitsValue base' n' ds := by
  induction ds generalizing n n' with
  | nil => exact before
  | cons c ds ih =>
    rw [takeDigits]
    split
    · exact ih (Nat.add_le_add_right (Nat.mul_le_mul before smaller) _)
    · exact Nat.le_trans before (le_digitsValue positive n' (c :: ds))

/-! ## The C library -/

def isHex (cp : List UInt8) : Bool :=
  (cp[1]? == some 120 || cp[1]? == some 88) && cp[2]?.any (digitVal · < 16)

/-- `strtoul` with base 0, for a text that begins with a digit. -/
def strtoul (cp : List UInt8) : Nat × List UInt8 :=
  if cp.head? = some 48 then
    if isHex cp then takeDigits 16 0 (cp.drop 2) else takeDigits 8 0 cp
  else takeDigits 10 0 cp

/-- The end of `inet_aton`: the last number fills the bytes that are left. -/
def inetAtonEnd (left hi : Nat) (val : Nat) (rest : List UInt8) : Option Nat :=
  if rest.head?.all isSpace ∧ val < 256 ^ (left + 1) then some (hi * 256 ^ (left + 1) + val)
  else none

/-- The loop of `inet_aton`, with the number of dots that may still come, and the bytes so far. -/
def inetAtonFrom : Nat → Nat → List UInt8 → Option Nat
  | 0, hi, cp =>
    if cp.head?.any (digitVal · < 10) then
      let (val, rest) := strtoul cp
      inetAtonEnd 0 hi val rest
    else none
  | left + 1, hi, cp =>
    if cp.head?.any (digitVal · < 10) then
      let (val, rest) := strtoul cp
      if rest.head? = some 46 then
        if val > 0xff then none else inetAtonFrom left (hi * 256 + val) rest.tail
      else inetAtonEnd (left + 1) hi val rest
    else none

/-- `inet_aton`: the address, as a number with its first byte the highest. -/
def inetAton (cp : List UInt8) : Option Nat := inetAtonFrom 3 0 cp

/-- `strtol` in base 10. -/
def strtol (s : List UInt8) : Int :=
  let s := s.dropWhile isSpace
  match s.head? with
  | some 45 => max (-(takeDigits 10 0 s.tail).1) (-2 ^ 63)
  | some 43 => min (takeDigits 10 0 s.tail).1 (2 ^ 63 - 1)
  | _ => min (takeDigits 10 0 s).1 (2 ^ 63 - 1)

/-- `atoi`: the `long` becomes an `int`. -/
def atoi (s : List UInt8) : Int := (strtol s + 2 ^ 31) % 2 ^ 32 - 2 ^ 31

/-! ## Decimal numbers -/

theorem digit_range (digit : digitVal c < 10) : 48 ≤ c.toNat ∧ c.toNat ≤ 57 := by
  unfold digitVal at digit
  split_ifs at digit
  · assumption
  all_goals omega

/-- `strtol` of a text that begins with a digit. -/
theorem strtol_digits (digits : ∀ c ∈ ds, digitVal c < 10) (nonempty : ds ≠ [])
    (stop : NoDigit 10 rest) :
    strtol (ds ++ rest) = min ((digitsValue 10 0 ds : Nat) : Int) (2 ^ 63 - 1) := by
  cases ds with
  | nil => exact absurd rfl nonempty
  | cons c ds =>
    have range := digit_range (digits c List.mem_cons_self)
    have space : isSpace c = false := by
      simp only [isSpace, Bool.or_eq_false_iff, beq_eq_false_iff_ne, Bool.and_eq_false_iff,
        decide_eq_false_iff_not]
      refine ⟨?_, .inr (by omega)⟩
      rintro rfl
      exact absurd range.1 (by decide)
    have minus : c ≠ 45 := by
      rintro rfl
      exact absurd range.1 (by decide)
    have plus : c ≠ 43 := by
      rintro rfl
      exact absurd range.1 (by decide)
    unfold strtol
    rw [List.cons_append, List.dropWhile_cons_of_neg (by simp [space])]
    simp only [List.head?_cons]
    split
    next same => exact absurd (Option.some.inj same) minus
    next same => exact absurd (Option.some.inj same) plus
    next => rw [← List.cons_append, takeDigits_append digits stop]

theorem takeDigits_suffix : (takeDigits base n ds).2 <:+ ds := by
  induction ds generalizing n with
  | nil => exact List.suffix_rfl
  | cons c ds ih =>
    rw [takeDigits]
    split
    · exact ih.trans (List.suffix_cons c ds)
    · exact List.suffix_rfl

theorem isHex_digits (digits : ∀ c ∈ ds, digitVal c < 10) : isHex ds = false := by
  have other (x : UInt8) (letter : 10 ≤ digitVal x) : (ds[1]? == some x) = false := by
    rw [beq_eq_false_iff_ne]
    intro second
    have := digits x (List.mem_of_getElem? second)
    omega
  rw [isHex, other 120 (by decide), other 88 (by decide)]
  rfl

/-- Decimal digits read as `strtoul` does give at most their decimal number. -/
theorem strtoul_digits (digits : ∀ c ∈ ds, digitVal c < 10) :
    (strtoul ds).1 ≤ digitsValue 10 0 ds ∧ (strtoul ds).2 <:+ ds := by
  unfold strtoul
  rw [isHex_digits digits]
  split
  · exact ⟨takeDigits_le (by decide) (by decide) (Nat.le_refl 0), takeDigits_suffix⟩
  · exact ⟨takeDigits_le (by decide) (Nat.le_refl 10) (Nat.le_refl 0), takeDigits_suffix⟩

theorem inetAton_digits {v : Nat} (digits : ∀ c ∈ ds, digitVal c < 10)
    (read : inetAton ds = some v) : v ≤ digitsValue 10 0 ds := by
  obtain ⟨le, suffix⟩ := strtoul_digits digits
  have undotted : (strtoul ds).2.head? ≠ some 46 := by
    intro dot
    have member := suffix.subset (List.mem_of_head? dot)
    exact absurd (digits 46 member) (by decide)
  unfold inetAton inetAtonFrom at read
  split at read
  · dsimp only at read
    rw [if_neg undotted, inetAtonEnd] at read
    split at read
    · have same := Option.some.inj read
      omega
    · cases read
  · cases read

structure Numeral where
  digits : List UInt8
  nonempty : digits ≠ []
  decimal : ∀ c ∈ digits, digitVal c < 10
  canonical : digits.head? = some 48 → digits = [48]

namespace Numeral

def value (num : Numeral) : Nat := digitsValue 10 0 num.digits

theorem head?_append (num : Numeral) (rest : List UInt8) :
    (num.digits ++ rest).head? = num.digits.head? := by
  cases h : num.digits with
  | nil => exact absurd h num.nonempty
  | cons c ds => rfl

theorem startsWithDigit (num : Numeral) (rest : List UInt8) :
    (num.digits ++ rest).head?.any (digitVal · < 10) = true := by
  rw [head?_append]
  cases h : num.digits with
  | nil => exact absurd h num.nonempty
  | cons c ds => exact decide_eq_true (num.decimal c (by simp [h]))

/-- A numeral in front of a dot, or at the end, is read as it is meant. -/
theorem strtoul (num : Numeral) {rest : List UInt8} (dot : ∀ c ∈ rest.head?, c = 46) :
    Lib.strtoul (num.digits ++ rest) = (num.value, rest) := by
  have stop (base : Nat) (le : base ≤ 36) : NoDigit base rest := by
    intro c member
    rw [dot c member]
    exact le
  unfold Lib.strtoul
  rw [num.head?_append]
  split
  next zero =>
    have digits := num.canonical zero
    have decimal : isHex (num.digits ++ rest) = false := by
      cases rest with
      | nil => rw [List.append_nil, isHex_digits num.decimal]
      | cons c rest =>
        obtain rfl := dot c rfl
        rw [digits]
        rfl
    rw [decimal, if_neg Bool.false_ne_true, value, digits]
    have octal : ∀ c ∈ [(48 : UInt8)], digitVal c < 8 := by simp [digitVal]
    rw [takeDigits_append octal (stop 8 (by decide))]
    simp [digitsValue, digitVal]
  next => exact takeDigits_append num.decimal (stop 10 (by decide))

/-- One number of a dotted quad is read, and the dot behind it. -/
theorem inetAtonFrom (num : Numeral) (le : num.value ≤ 255) (left hi : Nat) (rest : List UInt8) :
    Lib.inetAtonFrom (left + 1) hi (num.digits ++ 46 :: rest) =
      Lib.inetAtonFrom left (hi * 256 + num.value) rest := by
  have read : Lib.strtoul (num.digits ++ 46 :: rest) = (num.value, 46 :: rest) := by
    apply num.strtoul
    intro c member
    cases member
    rfl
  rw [Lib.inetAtonFrom, if_pos (num.startsWithDigit _)]
  simp only [read, List.head?_cons, if_true, List.tail_cons]
  rw [if_neg (Nat.not_lt.mpr le)]

end Numeral

/-- A dotted quad is read as it is meant. -/
theorem inetAton_dotted (a b c d : Numeral) (le_a : a.value ≤ 255) (le_b : b.value ≤ 255)
    (le_c : c.value ≤ 255) (le_d : d.value ≤ 255) :
    inetAton (a.digits ++ 46 :: (b.digits ++ 46 :: (c.digits ++ 46 :: d.digits))) =
      some (((a.value * 256 + b.value) * 256 + c.value) * 256 + d.value) := by
  have read : strtoul (d.digits ++ []) = (d.value, []) := by
    apply d.strtoul
    intro c member
    cases member
  have start := d.startsWithDigit []
  rw [List.append_nil] at read start
  rw [inetAton, a.inetAtonFrom le_a, b.inetAtonFrom le_b, c.inetAtonFrom le_c, inetAtonFrom,
    if_pos start]
  simp only [read, inetAtonEnd]
  rw [if_pos ⟨rfl, by omega⟩]
  simp

end Cheops.Lib
