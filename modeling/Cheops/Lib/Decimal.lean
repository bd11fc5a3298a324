import Cheops.Lib.Numerals

/-! # Numbers that are printed

What `%d` writes for a number is read back as that number, up to the first byte that is no digit.
-/

namespace Cheops.Lib

theorem text_append (s t : String) : text (s ++ t) = text s ++ text t := by
  simp [text, String.toList_append]

/-- `%d`, for a number that is not negative. -/
def decimal (n : Nat) : List UInt8 := text (toString n)

variable {n m : Nat} {c : UInt8} {rest rest' : List UInt8}

theorem text_decimal (n : Nat) :
    text (toString n) = (Nat.toDigits 10 n).map fun c => UInt8.ofNat c.toNat := by
  rw [text, Nat.toString_eq_repr, Nat.toList_repr]

/-! ## The digits -/

theorem digitVal_ofNat {k : Nat} (small : k < 10) : digitVal (UInt8.ofNat (48 + k)) = k := by
  have digits : ∀ k < 10, digitVal (UInt8.ofNat (48 + k)) = k := by decide
  exact digits k small

theorem decimal_of_lt (small : n < 10) : decimal n = [UInt8.ofNat (48 + n)] := by
  have digits : ∀ n < 10, (Nat.digitChar n).toNat = 48 + n := by decide
  rw [decimal, text_decimal, Nat.toDigits_of_lt_base small, List.map_singleton, digits n small]

theorem decimal_of_le (large : 10 ≤ n) :
    decimal n = decimal (n / 10) ++ [UInt8.ofNat (48 + n % 10)] := by
  have last := decimal_of_lt (Nat.mod_lt n (by decide : 10 > 0))
  rw [decimal, text_decimal, Nat.toDigits_of_lt_base (Nat.mod_lt n (by decide))] at last
  rw [decimal, text_decimal, Nat.toDigits_of_base_le (by decide) large, List.map_append, decimal,
    text_decimal]
  exact congrArg _ last

theorem decimal_ne_nil : decimal n ≠ [] := by
  rw [decimal, text_decimal]
  simp [Nat.toDigits_ne_nil]

theorem decimal_digits (n : Nat) : ∀ c ∈ decimal n, digitVal c < 10 := by
  induction n using Nat.strong_induction_on with
  | _ n ih =>
    rcases Nat.lt_or_ge n 10 with small | large
    · rw [decimal_of_lt small]
      intro c member
      rw [List.mem_singleton.mp member, digitVal_ofNat small]
      exact small
    · have digit := Nat.mod_lt n (by decide : 10 > 0)
      rw [decimal_of_le large]
      intro c member
      rcases List.mem_append.mp member with early | last
      · exact ih (n / 10) (by omega) c early
      · rw [List.mem_singleton.mp last, digitVal_ofNat digit]
        exact digit

theorem digitsValue_decimal (n : Nat) : digitsValue 10 0 (decimal n) = n := by
  induction n using Nat.strong_induction_on with
  | _ n ih =>
    rcases Nat.lt_or_ge n 10 with small | large
    · rw [decimal_of_lt small, digitsValue, List.foldl_cons, List.foldl_nil, digitVal_ofNat small]
      omega
    · have before := ih (n / 10) (by omega)
      unfold digitsValue at before ⊢
      rw [decimal_of_le large, List.foldl_append, before, List.foldl_cons, List.foldl_nil,
        digitVal_ofNat (Nat.mod_lt n (by decide))]
      omega

/-- No zero comes first but that of 0. -/
theorem decimal_canonical (zero : (decimal n).head? = some 48) : decimal n = [48] := by
  induction n using Nat.strong_induction_on with
  | _ n ih =>
    rcases Nat.lt_or_ge n 10 with small | large
    · rw [decimal_of_lt small] at zero ⊢
      rw [Option.some.inj zero]
    · rw [decimal_of_le large, List.head?_append_of_ne_nil _ decimal_ne_nil] at zero
      -- what comes first is the first digit of a tenth, which is not 0
      have tenth := digitsValue_decimal (n / 10)
      rw [ih (n / 10) (by omega) zero] at tenth
      have none : n / 10 = 0 := tenth.symm
      omega

def Numeral.ofNat (n : Nat) : Numeral where
  digits := Lib.decimal n
  nonempty := decimal_ne_nil
  decimal := decimal_digits n
  canonical := decimal_canonical

@[simp] theorem Numeral.value_ofNat (n : Nat) : (Numeral.ofNat n).value = n :=
  digitsValue_decimal n

/-- Numbers in front of something else are told apart. -/
theorem decimal_append_inj (stop : NoDigit 10 rest) (stop' : NoDigit 10 rest')
    (same : decimal n ++ rest = decimal m ++ rest') : n = m ∧ rest = rest' := by
  have read := takeDigits_append (n := 0) (decimal_digits n) stop
  have read' := takeDigits_append (n := 0) (decimal_digits m) stop'
  rw [same, read', digitsValue_decimal, digitsValue_decimal, Prod.mk.injEq] at read
  exact ⟨read.1.symm, read.2.symm⟩

/-! ## Numbers of either sign -/

/-- `%d`. -/
def printed (x : Int) : List UInt8 := text (toString x)

theorem printed_ofNat (n : Nat) : printed n = decimal n := rfl

theorem printed_negSucc (n : Nat) : printed (Int.negSucc n) = 45 :: decimal (n + 1) := by
  have sign : text "-" = [45] := by decide
  have parts : toString (Int.negSucc n) = "-" ++ toString (n + 1) := rfl
  rw [printed, parts, text_append, sign]
  rfl

theorem printed_ne_nil (x : Int) : printed x ≠ [] := by
  cases x with
  | ofNat n => exact decimal_ne_nil
  | negSucc n =>
    rw [printed_negSucc]
    exact List.cons_ne_nil _ _

/-- What is printed is a minus or a digit. -/
theorem mem_printed {x : Int} (member : c ∈ printed x) : c = 45 ∨ digitVal c < 10 := by
  cases x with
  | ofNat n => exact .inr (decimal_digits n c member)
  | negSucc n =>
    rw [printed_negSucc] at member
    rcases List.mem_cons.mp member with minus | digit
    · exact .inl minus
    · exact .inr (decimal_digits _ c digit)

/-- A number that fits into a `long` is read back. -/
theorem strtol_printed {x : Int} (above : -2 ^ 63 ≤ x) (below : x < 2 ^ 63) :
    strtol (printed x) = x := by
  cases x with
  | ofNat n =>
    have read : strtol (decimal n ++ []) = _ :=
      strtol_digits (decimal_digits n) decimal_ne_nil fun c none => by cases none
    rw [List.append_nil, digitsValue_decimal] at read
    rw [Int.ofNat_eq_natCast] at below ⊢
    rw [printed_ofNat, read]
    omega
  | negSucc n =>
    have whole : takeDigits 10 0 (decimal (n + 1)) = _ := takeDigits_all (decimal_digits (n + 1))
    rw [digitsValue_decimal] at whole
    have minus : isSpace 45 = false := by decide
    rw [printed_negSucc, strtol, List.dropWhile_cons_of_neg (by simp [minus])]
    simp only [List.head?_cons, List.tail_cons, whole]
    omega

/-- An `int` is read back. -/
theorem atoi_printed {x : Int} (above : -2 ^ 31 ≤ x) (below : x < 2 ^ 31) :
    atoi (printed x) = x := by
  rw [atoi, strtol_printed (by omega) (by omega)]
  omega

end Cheops.Lib
