import Cheops.Fields.Basic
import Cheops.Lib.Numerals

/-! # Networks with a mask (`gui-handlers.c`, `cheops-sh-guts.c`)

A network is given as an address and a mask, and the mask as a dotted quad or as the length of a
prefix.  Both clients try `inet_aton` on the text and then `atoi`, and each of these reads some
texts that are meant for the other (`discover_network_iff`).
-/

namespace Cheops.Fields

open Cheops.Lib

/-! ## The code -/

/-- The netmask that the clients make of the text `c`. -/
def readMask (o : ByteOrder) (c : List UInt8) : Option Nat :=
  netmask o ((inetAton c).map (o.hton 4)) (atoi c)

/-- `do_network_discover_after_dns`: the range of the request, for the mask in `end_`. -/
def guiNetwork (o : ByteOrder) (s : Nat) (end_ : List UInt8) : Option (Nat × Nat) :=
  (doNetworkDiscoverAfterDns o s ((inetAton end_).map (o.hton 4)) (atoi end_) []).map fun dd =>
    (dd.startIp, dd.endIp)

/-- `do_discover` of the shell, for an argument with a `/` and the mask `c` behind it.  `s` is what
    `get_host` has stored for the part in front. -/
def shNetwork (o : ByteOrder) (s : Nat) (c : List UInt8) : Option (Nat × Nat) :=
  (readMask o c).map fun mask =>
    let start := o.ntoh 4 s &&& mask
    (start, start ||| (0xffffffff ^^^ mask))

/-! ## What is meant -/

def prefixMask (len : Nat) : Nat := 2 ^ 32 - 2 ^ (32 - len)

structure Octet extends Numeral where
  le : toNumeral.value ≤ 255

/-- A text for a mask.  A decimal number may have zeros in front. -/
inductive MaskText where
  | quad (b₀ b₁ b₂ b₃ : Octet)
  | decimal (digits : List UInt8) (nonempty : digits ≠ [])
      (decimal : ∀ c ∈ digits, digitVal c < 10)

def MaskText.text : MaskText → List UInt8
  | quad b₀ b₁ b₂ b₃ =>
    b₀.digits ++ 46 :: (b₁.digits ++ 46 :: (b₂.digits ++ 46 :: b₃.digits))
  | decimal digits _ _ => digits

def LeadingOnes (mask : Nat) : Prop := ∃ len, 1 ≤ len ∧ len ≤ 32 ∧ mask = prefixMask len

inductive MaskText.Means : MaskText → Nat → Prop
  | quad {b₀ b₁ b₂ b₃ : Octet} {mask : Nat}
      (value : mask = ((b₀.value * 256 + b₁.value) * 256 + b₂.value) * 256 + b₃.value)
      (ones : LeadingOnes mask) : Means (quad b₀ b₁ b₂ b₃) mask
  | decimal {digits : List UInt8} {nonempty : digits ≠ []}
      {decimal : ∀ c ∈ digits, digitVal c < 10} (one_le : 1 ≤ digitsValue 10 0 digits)
      (le : digitsValue 10 0 digits ≤ 32) :
      Means (.decimal digits nonempty decimal) (prefixMask (digitsValue 10 0 digits))

/-- The request is for the block of `a` under the mask that the text means, and there is none if
    it means no mask. -/
structure Requests (t : MaskText) (a : Nat) (request : Option (Nat × Nat)) : Prop where
  block : ∀ mask, t.Means mask → ∃ start last, request = some (start, last) ∧ start ≤ last ∧
    ∀ x < 2 ^ 32, start ≤ x ∧ x ≤ last ↔ x &&& mask = a &&& mask
  refused : (∀ mask, ¬ t.Means mask) → request = none

/-- Both clients request the block of the address `a`, and the same one. -/
structure DiscoversNetwork (o : ByteOrder) (t : MaskText) (a : Nat) : Prop where
  gui : Requests t a (guiNetwork o (sAddr o a) t.text)
  shell : Requests t a (shNetwork o (sAddr o a) t.text)
  agree : guiNetwork o (sAddr o a) t.text = shNetwork o (sAddr o a) t.text

/-- The text is taken for another mask: a dotted quad begins with the length of a prefix, or a
    decimal number is an address for `inet_aton` that is a mask, or a length for `atoi` when it has
    lost all bits but 32. -/
def MaskText.Misread : MaskText → Prop
  | quad b₀ _ _ _ => 1 ≤ b₀.value ∧ b₀.value ≤ 32
  | decimal digits _ _ =>
    (∃ mask, inetAton digits = some mask ∧ LeadingOnes mask) ∨
      (2 ^ 32 ≤ digitsValue 10 0 digits ∧ digitsValue 10 0 digits < 2 ^ 63 ∧
        1 ≤ digitsValue 10 0 digits % 2 ^ 32 ∧ digitsValue 10 0 digits % 2 ^ 32 ≤ 32)

/-! ## Masks -/

theorem shifted_eq {len : Nat} (le : len ≤ 32) :
    (0xffffffff >>> (32 - len)) <<< (32 - len) % 2 ^ 32 = prefixMask len := by
  interval_cases len <;> rfl

theorem complement_eq {len : Nat} (le : len ≤ 32) :
    0xffffffff ^^^ prefixMask len = 2 ^ (32 - len) - 1 := by
  interval_cases len <;> rfl

theorem topBit_iff {mask : Nat} (bound : mask < 2 ^ 32) :
    mask &&& 0x80000000 ≠ 0 ↔ 2 ^ 31 ≤ mask := by
  have bit : mask &&& 2 ^ 31 = (mask.testBit 31).toNat * 2 ^ 31 := Nat.and_two_pow mask 31
  rw [show (0x80000000 : Nat) = 2 ^ 31 from rfl, bit, Nat.testBit_eq_decide_div_mod_eq]
  have top : mask / 2 ^ 31 % 2 = 1 ↔ 2 ^ 31 ≤ mask := by omega
  by_cases high : 2 ^ 31 ≤ mask
  case pos => simp only [top.mpr high, decide_true, Bool.toNat_true, ne_eq, high, iff_true]; decide
  case neg => simp only [mt top.mp high, decide_false, Bool.toNat_false, ne_eq, high]; decide

/-- After `32 - turns` turns that many zeros have been shifted in. -/
theorem allonesLoop_eq_zero_iff {turns mask : Nat} (bound : mask < 2 ^ 32) (le : turns ≤ 32)
    (shifted : 2 ^ (32 - turns) ∣ mask) :
    allones.loop turns mask = 0 ↔ ∃ k, k ≤ 32 ∧ mask = 2 ^ 32 - 2 ^ k := by
  induction turns generalizing mask with
  | zero =>
    have none : mask = 0 := Nat.eq_zero_of_dvd_of_lt shifted bound
    exact iff_of_true none ⟨32, Nat.le_refl _, none⟩
  | succ turns ih =>
    unfold allones.loop
    by_cases high : 2 ^ 31 ≤ mask
    case pos =>
      have next : (mask <<< 1) % 2 ^ 32 = 2 * mask - 2 ^ 32 := by
        rw [Nat.shiftLeft_eq]
        omega
      have double : 2 ^ (32 - turns) ∣ 2 * mask - 2 ^ 32 := by
        have power : 2 ^ (32 - turns) = 2 * 2 ^ (32 - (turns + 1)) := by
          rw [← Nat.pow_succ']
          congr 1
          omega
        apply Nat.dvd_sub
        · exact power ▸ Nat.mul_dvd_mul_left 2 shifted
        · exact Nat.pow_dvd_pow 2 (Nat.sub_le _ _)
      rw [if_pos ((topBit_iff bound).mpr high), next, ih (by omega) (by omega) double]
      constructor
      · rintro ⟨k, le, same⟩
        cases k with
        | zero => omega
        | succ k =>
          have half : 2 ^ (k + 1) = 2 * 2 ^ k := Nat.pow_succ'
          have small : 2 ^ k ≤ 2 ^ 31 := Nat.pow_le_pow_right (by decide) (by omega)
          exact ⟨k, by omega, by omega⟩
      · rintro ⟨k, le, rfl⟩
        have proper : k ≠ 32 := by
          rintro rfl
          exact absurd high (by decide)
        have small : 2 ^ k ≤ 2 ^ 31 := Nat.pow_le_pow_right (by decide) (by omega)
        have half : 2 ^ (k + 1) = 2 * 2 ^ k := Nat.pow_succ'
        refine ⟨k + 1, by omega, ?_⟩
        rw [half]
        clear ih double next shifted bound high half
        generalize 2 ^ k = size at small ⊢
        omega
    case neg =>
      rw [if_neg fun set => high ((topBit_iff bound).mp set)]
      constructor
      · rintro rfl
        exact ⟨32, by decide, by decide⟩
      · rintro ⟨k, le, rfl⟩
        by_cases full : k = 32
        case pos => rw [full, Nat.sub_self]
        case neg =>
          have small : 2 ^ k ≤ 2 ^ 31 := Nat.pow_le_pow_right (by decide) (by omega)
          have positive : 0 < 2 ^ k := Nat.pow_pos (by decide)
          omega

/-- What the clients test of a number that `inet_aton` has read. -/
theorem allones_iff {mask : Nat} (bound : mask < 2 ^ 32) :
    ¬ mask < 0x80000000 ∧ allones mask = true ↔ LeadingOnes mask := by
  rw [allones, beq_iff_eq, allonesLoop_eq_zero_iff bound (Nat.le_refl 32) (by simp)]
  constructor
  · rintro ⟨high, k, le, rfl⟩
    have proper : k ≠ 32 := by
      rintro rfl
      exact high (by decide)
    exact ⟨32 - k, by omega, by omega, by rw [prefixMask, Nat.sub_sub_self le]⟩
  · rintro ⟨len, low, high, rfl⟩
    have small : 2 ^ (32 - len) ≤ 2 ^ 31 := Nat.pow_le_pow_right (by decide) (by omega)
    refine ⟨?_, 32 - len, Nat.sub_le _ _, rfl⟩
    rw [prefixMask]
    omega

/-- A mask clears the last bits of an address. -/
theorem and_prefixMask {x len : Nat} (bound : x < 2 ^ 32) (le : len ≤ 32) :
    x &&& prefixMask len = x / 2 ^ (32 - len) * 2 ^ (32 - len) := by
  have shifted : prefixMask len = (2 ^ len - 1) * 2 ^ (32 - len) := by
    rw [prefixMask, Nat.sub_mul, ← Nat.pow_add, Nat.add_sub_cancel' le, Nat.one_mul]
  rw [shifted, ← Nat.shiftLeft_eq, ← Nat.shiftLeft_eq, ← Nat.shiftRight_eq_div_pow]
  apply Nat.eq_of_testBit_eq
  intro i
  simp only [Nat.testBit_and, Nat.testBit_shiftLeft, Nat.testBit_two_pow_sub_one,
    Nat.testBit_shiftRight]
  by_cases low : i ≥ 32 - len
  case neg => simp [low]
  case pos =>
    rw [show 32 - len + (i - (32 - len)) = i by omega]
    by_cases high : i < 32
    case pos => simp [low, show i - (32 - len) < len by omega]
    case neg =>
      rw [Nat.testBit_lt_two_pow (Nat.lt_of_lt_of_le bound (Nat.pow_le_pow_right (by decide)
        (Nat.not_lt.mp high)))]
      simp

/-- The range from the address with the last bits cleared to the one with them set is the block. -/
theorem block_prefixMask {a len : Nat} (bound : a < 2 ^ 32) (le : len ≤ 32) :
    let start := a &&& prefixMask len
    let last := start ||| (0xffffffff ^^^ prefixMask len)
    start ≤ last ∧
      ∀ x < 2 ^ 32, start ≤ x ∧ x ≤ last ↔ x &&& prefixMask len = a &&& prefixMask len := by
  have pos : 0 < 2 ^ (32 - len) := Nat.pow_pos (by decide)
  have small : 2 ^ (32 - len) ≤ 2 ^ 32 := Nat.pow_le_pow_right (by decide) (Nat.sub_le _ _)
  have filled : a &&& prefixMask len ||| (0xffffffff ^^^ prefixMask len) =
      a / 2 ^ (32 - len) * 2 ^ (32 - len) + (2 ^ (32 - len) - 1) := by
    rw [complement_eq le, and_prefixMask bound le, ← Nat.shiftLeft_eq]
    exact (Nat.shiftLeft_add_eq_or_of_lt (by omega) _).symm
  dsimp only
  rw [filled, and_prefixMask bound le]
  refine ⟨Nat.le_add_right _ _, fun x inside => ?_⟩
  rw [and_prefixMask inside le]
  generalize 2 ^ (32 - len) = size at pos ⊢
  have euclid := Nat.div_add_mod' x size
  have rest := Nat.mod_lt x pos
  constructor
  · rintro ⟨low, high⟩
    have same : x / size = a / size := by
      apply Nat.le_antisymm
      · apply Nat.le_of_lt_succ
        apply Nat.div_lt_of_lt_mul
        rw [Nat.mul_succ, Nat.mul_comm size]
        omega
      · exact (Nat.le_div_iff_mul_le pos).mpr low
    rw [same]
  · intro same
    omega

/-! ## Texts -/

theorem ntoh_hton_of_lt {o : ByteOrder} {x : Nat} (bound : x < 2 ^ 32) :
    o.ntoh 4 (o.hton 4 x) = x := by
  rw [ByteOrder.ntoh_hton]
  exact Nat.mod_eq_of_lt (by simpa using bound)

theorem inetAtonEnd_lt {left hi val v : Nat} {rest : List UInt8} (before : hi < 256 ^ (3 - left))
    (le : left ≤ 3) (read : inetAtonEnd left hi val rest = some v) : v < 2 ^ 32 := by
  unfold inetAtonEnd at read
  split at read
  next valid =>
    cases read
    have room : 256 ^ (3 - left) * 256 ^ (left + 1) = 2 ^ 32 := by
      rw [← Nat.pow_add, show 3 - left + (left + 1) = 4 by omega]
      norm_num
    calc hi * 256 ^ (left + 1) + val < hi * 256 ^ (left + 1) + 256 ^ (left + 1) :=
          Nat.add_lt_add_left valid.2 _
      _ = (hi + 1) * 256 ^ (left + 1) := (Nat.succ_mul _ _).symm
      _ ≤ 256 ^ (3 - left) * 256 ^ (left + 1) := Nat.mul_le_mul_right _ before
      _ = 2 ^ 32 := room
  next => cases read

theorem inetAtonFrom_lt {left hi v : Nat} {cp : List UInt8} (before : hi < 256 ^ (3 - left))
    (le : left ≤ 3) (read : inetAtonFrom left hi cp = some v) : v < 2 ^ 32 := by
  induction left generalizing hi cp with
  | zero =>
    unfold inetAtonFrom at read
    split at read
    · exact inetAtonEnd_lt before le read
    · cases read
  | succ left ih =>
    unfold inetAtonFrom at read
    split at read
    case isFalse => cases read
    dsimp only at read
    split at read
    case isFalse => exact inetAtonEnd_lt before le read
    split at read
    case isTrue => cases read
    next byte =>
      apply ih _ (by omega) read
      rw [show 3 - left = 3 - (left + 1) + 1 by omega, Nat.pow_succ]
      omega

theorem inetAton_lt {c : List UInt8} {v : Nat} (read : inetAton c = some v) : v < 2 ^ 32 :=
  inetAtonFrom_lt (by decide) (Nat.le_refl 3) read

/-- The mask that is taken from a text, by what `inet_aton` and `atoi` read. -/
theorem readMask_eq (o : ByteOrder) (c : List UInt8) :
    (∃ mask, inetAton c = some mask ∧ LeadingOnes mask ∧ readMask o c = some mask) ∨
    ((¬ ∃ mask, inetAton c = some mask ∧ LeadingOnes mask) ∧
      readMask o c =
        if 1 ≤ atoi c ∧ atoi c ≤ 32 then some (prefixMask (atoi c).toNat) else none) := by
  have length : (if atoi c > 32 ∨ atoi c < 1 then none else
        some ((0xffffffff >>> (32 - (atoi c).toNat)) <<< (32 - (atoi c).toNat) % 2 ^ 32)) =
      if 1 ≤ atoi c ∧ atoi c ≤ 32 then some (prefixMask (atoi c).toNat) else none := by
    by_cases valid : 1 ≤ atoi c ∧ atoi c ≤ 32
    case pos => rw [if_neg (by omega), if_pos valid, shifted_eq (by omega)]
    case neg => rw [if_pos (by omega), if_neg valid]
  unfold readMask netmask
  cases read : inetAton c with
  | none =>
    refine .inr ⟨?_, length⟩
    rintro ⟨mask, same, -⟩
    cases same
  | some mask =>
    have bound := inetAton_lt read
    simp only [Option.map_some]
    by_cases ones : LeadingOnes mask
    case pos =>
      rw [Option.filter_some, ntoh_hton_of_lt bound,
        if_pos (by simpa using (allones_iff bound).mpr ones)]
      exact .inl ⟨mask, rfl, ones, congrArg some (ntoh_hton_of_lt bound)⟩
    case neg =>
      rw [Option.filter_some, ntoh_hton_of_lt bound,
        if_neg (by simpa using mt (allones_iff bound).mp ones)]
      refine .inr ⟨?_, length⟩
      rintro ⟨mask', same, ones'⟩
      cases same
      exact ones ones'

/-- A dotted quad is read as it is meant. -/
theorem inetAton_quad (b₀ b₁ b₂ b₃ : Octet) :
    inetAton (MaskText.quad b₀ b₁ b₂ b₃).text =
      some (((b₀.value * 256 + b₁.value) * 256 + b₂.value) * 256 + b₃.value) :=
  inetAton_dotted b₀.toNumeral b₁.toNumeral b₂.toNumeral b₃.toNumeral b₀.le b₁.le b₂.le b₃.le

theorem atoi_quad (b₀ b₁ b₂ b₃ : Octet) :
    atoi (MaskText.quad b₀ b₁ b₂ b₃).text = b₀.value := by
  have stop : NoDigit 10 (46 :: (b₁.digits ++ 46 :: (b₂.digits ++ 46 :: b₃.digits))) := by
    intro c member
    cases member
    decide
  have le := b₀.le
  rw [atoi, MaskText.text, strtol_digits b₀.decimal b₀.nonempty stop]
  change (min (b₀.value : Int) _ + _) % _ - _ = _
  omega

theorem atoi_decimal {digits : List UInt8} (nonempty : digits ≠ [])
    (decimal : ∀ c ∈ digits, digitVal c < 10) :
    atoi digits =
      (min (digitsValue 10 0 digits : Int) (2 ^ 63 - 1) + 2 ^ 31) % 2 ^ 32 - 2 ^ 31 := by
  have read : strtol (digits ++ []) = _ :=
    strtol_digits decimal nonempty fun c none => by cases none
  rw [List.append_nil] at read
  rw [atoi, read]

/-! ## Both clients -/

theorem LeadingOnes.high {mask : Nat} (ones : LeadingOnes mask) : 2 ^ 31 ≤ mask := by
  obtain ⟨len, low, high, rfl⟩ := ones
  have small : 2 ^ (32 - len) ≤ 2 ^ 31 := Nat.pow_le_pow_right (by decide) (by omega)
  rw [prefixMask]
  omega

theorem MaskText.Means.leadingOnes {t : MaskText} {mask : Nat} (means : t.Means mask) :
    LeadingOnes mask := by
  cases means with
  | quad value ones => exact ones
  | decimal one_le le => exact ⟨_, one_le, le, rfl⟩

variable {o : ByteOrder} {t : MaskText} {a : Nat}

/-- The range of the block of `a` that either client makes of a mask. -/
def blockOf (a mask : Nat) : Nat × Nat :=
  (a &&& mask, a &&& mask ||| (0xffffffff ^^^ mask))

theorem guiNetwork_eq (bound : a < 2 ^ 32) (c : List UInt8) :
    guiNetwork o (sAddr o a) c = (readMask o c).map (blockOf a) := by
  rw [guiNetwork, doNetworkDiscoverAfterDns, Option.map_map, ← ByteOrder.ntoh_eq_hton,
    ntoh_sAddr bound]
  rfl

theorem shNetwork_eq (bound : a < 2 ^ 32) (c : List UInt8) :
    shNetwork o (sAddr o a) c = (readMask o c).map (blockOf a) := by
  rw [shNetwork, ntoh_sAddr bound]
  rfl

/-- The request is right if the mask is. -/
theorem requests_of_readMask (bound : a < 2 ^ 32)
    (read : ∀ mask, t.Means mask → readMask o t.text = some mask)
    (refused : (∀ mask, ¬ t.Means mask) → readMask o t.text = none) :
    Requests t a ((readMask o t.text).map (blockOf a)) where
  block mask means := by
    obtain ⟨len, low, le, rfl⟩ := means.leadingOnes
    rw [read _ means, Option.map_some]
    exact ⟨_, _, rfl, block_prefixMask bound le⟩
  refused none := by
    rw [refused none]
    rfl

/-- A text that means no mask must not be read as one. -/
theorem Requests.readMask_eq_none (requests : Requests t a ((readMask o t.text).map (blockOf a)))
    (meaningless : ∀ mask, ¬ t.Means mask) : readMask o t.text = none := by
  have none := requests.refused meaningless
  rwa [Option.map_eq_none_iff] at none

theorem readMask_of_not_misread (right : ¬ t.Misread) :
    (∀ mask, t.Means mask → readMask o t.text = some mask) ∧
      ((∀ mask, ¬ t.Means mask) → readMask o t.text = none) := by
  cases t with
  | quad b₀ b₁ b₂ b₃ =>
    rcases readMask_eq o (MaskText.quad b₀ b₁ b₂ b₃).text with ⟨mask, read, ones, eq⟩ | ⟨other, eq⟩
    · rw [inetAton_quad] at read
      have value := (Option.some.inj read).symm
      constructor
      · rintro mask' (⟨value', -⟩ | -)
        rw [eq, value, value']
      · exact fun none => absurd (.quad value ones) (none mask)
    · constructor
      · rintro mask' (⟨value, ones⟩ | -)
        exact absurd ⟨mask', by rw [inetAton_quad, value], ones⟩ other
      · intro
        have wrong : ¬ (1 ≤ b₀.value ∧ b₀.value ≤ 32) := right
        rw [eq, atoi_quad, if_neg (by omega)]
  | decimal digits nonempty decimal =>
    obtain ⟨notMask, notLength⟩ := not_or.mp right
    have eq := ((readMask_eq o digits).resolve_left fun ⟨mask, read, ones, _⟩ =>
      notMask ⟨mask, read, ones⟩).2
    rw [atoi_decimal nonempty decimal] at eq
    change (∀ mask, _ → readMask o digits = some mask) ∧ (_ → readMask o digits = none)
    constructor
    · rintro mask (- | ⟨one_le, le⟩)
      have value : (min (digitsValue 10 0 digits : Int) (2 ^ 63 - 1) + 2 ^ 31) % 2 ^ 32 - 2 ^ 31 =
          digitsValue 10 0 digits := by omega
      rw [eq, value, if_pos (by omega), Int.toNat_natCast]
    · intro meaningless
      have out : ¬ (1 ≤ digitsValue 10 0 digits ∧ digitsValue 10 0 digits ≤ 32) :=
        fun inside => meaningless _ (.decimal inside.1 inside.2)
      rw [eq, if_neg]
      omega

theorem Requests.not_misread (requests : Requests t a ((readMask o t.text).map (blockOf a))) :
    ¬ t.Misread := by
  cases t with
  | quad b₀ b₁ b₂ b₃ =>
    rintro ⟨one_le, le⟩
    have le₁ := b₁.le
    have le₂ := b₂.le
    have le₃ := b₃.le
    have low : ¬ LeadingOnes (((b₀.value * 256 + b₁.value) * 256 + b₂.value) * 256 + b₃.value) := by
      intro ones
      have high := ones.high
      omega
    have unread := requests.readMask_eq_none fun mask means => by
      cases means with
      | quad value ones => exact low (value ▸ ones)
    rcases readMask_eq o (MaskText.quad b₀ b₁ b₂ b₃).text with ⟨mask, read, ones, -⟩ | ⟨-, eq⟩
    · rw [inetAton_quad] at read
      exact low (Option.some.inj read ▸ ones)
    · rw [unread, atoi_quad, if_pos (by omega)] at eq
      cases eq
  | decimal digits nonempty decimal =>
    intro misread
    have large : 32 < digitsValue 10 0 digits := by
      rcases misread with ⟨mask, read, ones⟩ | ⟨large, -⟩
      · have high := ones.high
        have le := inetAton_digits decimal read
        omega
      · omega
    have unread := requests.readMask_eq_none fun mask means => by
      cases means with
      | decimal one_le le => omega
    change readMask o digits = none at unread
    rcases readMask_eq o digits with ⟨mask, -, -, eq⟩ | ⟨other, eq⟩
    · rw [unread] at eq
      cases eq
    · rcases misread with mask | ⟨low, high, one_le, le⟩
      · exact other mask
      · rw [unread, atoi_decimal nonempty decimal, if_pos (by omega)] at eq
        cases eq

/-- Both clients discover the network that is meant, unless they misread the mask. -/
theorem discover_network_iff (o : ByteOrder) (t : MaskText) (a : BitVec 32) :
    DiscoversNetwork o t a.toNat ↔ ¬ t.Misread := by
  have gui := guiNetwork_eq (o := o) a.isLt t.text
  have shell := shNetwork_eq (o := o) a.isLt t.text
  constructor
  · intro discovers
    have requests := discovers.gui
    rw [gui] at requests
    exact requests.not_misread
  · intro right
    obtain ⟨read, refused⟩ := readMask_of_not_misread (o := o) right
    have requests := requests_of_readMask (o := o) a.isLt read refused
    exact ⟨gui ▸ requests, shell ▸ requests, gui.trans shell.symm⟩

/-- 16.0.0.0, and 4294967040, which is 255.255.255.0 for `inet_aton`. -/
def sixteen : Octet :=
  ⟨⟨[49, 54], by decide, by simp [digitVal], by decide⟩,
    by simp [Numeral.value, digitsValue, digitVal]⟩

def zero : Octet :=
  ⟨⟨[48], by decide, by simp [digitVal], by decide⟩,
    by simp [Numeral.value, digitsValue, digitVal]⟩

def longNumber : MaskText :=
  .decimal [52, 50, 57, 52, 57, 54, 55, 48, 52, 48] (by decide) (by simp [digitVal])

/-- The first is taken for a prefix of 16 bits, the second for one of 24. -/
theorem discover_network_misread :
    ¬ DiscoversNetwork .little (.quad sixteen zero zero zero) 0x0a000001 ∧
      ¬ DiscoversNetwork .little longNumber 0x0a000001 := by
  constructor
  · intro discovers
    have requests := discovers.gui
    rw [guiNetwork_eq (by decide)] at requests
    apply requests.not_misread
    simp [MaskText.Misread, sixteen, Numeral.value, digitsValue, digitVal]
  · intro discovers
    have requests := discovers.gui
    rw [guiNetwork_eq (by decide)] at requests
    apply requests.not_misread
    refine .inl ⟨0xffffff00, ?_, 24, by decide, by decide, by decide⟩
    simp [inetAton, inetAtonFrom, strtoul, takeDigits, digitVal, inetAtonEnd]

end Cheops.Fields
