import Cheops.Fields.Network

/-! # Routes (`ip_utils.c`)

`init_route_tables` reads `/proc/net/route` into a table, and `getlocalip` looks for the route of a
destination in it.  It takes the first one in the order of the file, whatever the masks are
(`getlocalip_table`).
-/

namespace Cheops.IpUtils

open Cheops.Lib

/-! ## The table -/

def sizeofBuf : Nat := 1024
def sizeofIface : Nat := 16

structure Interfacerec where
  ifname : List UInt8
  addr : Nat
deriving DecidableEq, Repr

/-- `iface` is the index of the interface in its array. -/
structure Routerec where
  addr : Nat
  naddr : Nat
  iface : Nat
deriving DecidableEq, Repr

/-- What `fgets` has read, what is left of the file, and whether it has met the end. -/
structure Line where
  read : List UInt8
  rest : List UInt8
  eof : Bool
deriving DecidableEq, Repr

/-- `fgets`, for a number of bytes.  It returns `NULL` when it has read nothing. -/
def fgets : Nat → List UInt8 → Line
  | 0, f => { read := [], rest := f, eof := false }
  | _ + 1, [] => { read := [], rest := [], eof := true }
  | n + 1, c :: f =>
    if c = 10 then { read := [c], rest := f, eof := false }
    else { fgets n f with read := c :: (fgets n f).read }

def readBuf (f : List UInt8) : Line := fgets (sizeofBuf - 1) f

/-- `while (!feof (f))`, with the calls of `fgets` so far. -/
def countLines : Nat → Line → Nat → Option Nat
  | 0, _, _ => none
  | fuel + 1, l, n => if l.eof then some n else countLines fuel (readBuf l.rest) (n + 1)

def toShort (x : Int) : Int := (x + 2 ^ 15) % 2 ^ 16 - 2 ^ 15

def strtok (buf : List UInt8) : List (List UInt8) :=
  (buf.splitOnP fun c => c == 9 || c == 32).filter (· ≠ [])

def strtoul16 (s : List UInt8) : Nat :=
  let s := s.dropWhile isSpace
  let minus := s.head? = some 45
  let s := if minus ∨ s.head? = some 43 then s.tail else s
  let val := (takeDigits 16 0 (if s.head? = some 48 ∧ isHex s then s.drop 2 else s)).1
  if 2 ^ 64 ≤ val then 2 ^ 64 - 1 else if minus then (2 ^ 64 - val) % 2 ^ 64 else val

def findInterface (interfaces : List Interfacerec) (iface : List UInt8) : Option Nat :=
  (List.range interfaces.length).reverse.find? fun k =>
    (interfaces[k]?.map Interfacerec.ifname) == some iface

/-- A line of the table is filled in.  The program ends where an interface is not listed, and where
    there is no second token. -/
def fillRoute (interfaces : List Interfacerec) (buf : List UInt8) (r : Routerec) :
    Option Routerec :=
  match strtok buf with
  | [] => some r
  | iface :: tokens =>
    if sizeofIface ≤ iface.length then some r
    else do
      let r := { r with addr := strtoul16 (← tokens.head?) % 2 ^ 32 }
      match tokens[6]? with
      | none => some r
      | some netmask =>
        some { r with naddr := strtoul16 netmask, iface := ← findInterface interfaces iface }

/-- The loop that fills the table, which holds `junk` before, from index `i` on.  A line that fills
    `buf` is left out together with what follows it. -/
def fillRoutes (interfaces : List Interfacerec) (junk : Nat → Routerec) :
    Nat → Nat → List UInt8 → Option (List Routerec)
  | 0, _, _ => some []
  | turns + 1, i, f => do
    let l := readBuf f
    if l.read = [] then none
    else if l.read.length = sizeofBuf - 1 then
      some (junk i ::
        (← fillRoutes interfaces junk turns (i + 1) (l.rest.dropWhile (· ≠ 10)).tail))
    else
      let r ← fillRoute interfaces l.read (junk i)
      some (r :: (← fillRoutes interfaces junk turns (i + 1) l.rest))

/-- The part of `init_route_tables` that reads the file. -/
def initRouteTables (interfaces : List Interfacerec) (junk : Nat → Routerec) (f : List UInt8) :
    Option (List Routerec) := do
  let description := readBuf f
  let lines ← countLines (f.length + 2) description 0
  fillRoutes interfaces junk (toShort (lines - 1)).toNat 0 description.rest

def getlocalip (interfaces : List Interfacerec) (junk : Nat → Routerec) (f : List UInt8)
    (dest : Nat) : Option Nat := do
  let routes ← initRouteTables interfaces junk f
  match routes.find? fun r => dest &&& r.naddr = r.addr with
  | some r => (interfaces[r.iface]?).map Interfacerec.addr
  | none => some 0

/-! ## What the kernel prints -/

/-- A line of `/proc/net/route`; what stands between the destination and the mask are the gateway,
    the flags, and three counts. -/
structure RouteLine where
  iface : List UInt8
  destination : List UInt8
  between : List (List UInt8)
  mask : List UInt8
  others : List UInt8
  len : Nat

namespace RouteLine

def fields (l : RouteLine) : List (List UInt8) :=
  l.iface :: l.destination :: (l.between ++ [l.mask])

def text (l : RouteLine) : List UInt8 := l.fields.flatMap (· ++ [9]) ++ l.others ++ [10]

def network (l : RouteLine) : Nat := digitsValue 16 0 l.destination

def netmask (l : RouteLine) : Nat := digitsValue 16 0 l.mask

def Matches (dest : Nat) (l : RouteLine) : Prop := dest &&& l.netmask = l.network

instance (dest : Nat) : DecidablePred (Matches dest) := fun _ => inferInstanceAs (Decidable (_ = _))

/-- The line is what the kernel of a host with this byte order prints. -/
structure Printed (o : ByteOrder) (l : RouteLine) : Prop where
  name : l.iface.length < sizeofIface
  between : l.between.length = 5
  fields : ∀ w ∈ l.fields, w ≠ [] ∧ ∀ c ∈ w, c ≠ 9 ∧ c ≠ 32 ∧ c ≠ 10
  destination : (∀ c ∈ l.destination, digitVal c < 16) ∧ l.destination.length ≤ 8
  mask : (∀ c ∈ l.mask, digitVal c < 16) ∧ l.mask.length ≤ 8
  others : 10 ∉ l.others
  short : l.text.length < sizeofBuf - 1
  contiguous : l.len ≤ 32 ∧ l.netmask = o.hton 4 (Fields.prefixMask l.len)

end RouteLine

def routeFile (description : List UInt8) (lines : List RouteLine) : List UInt8 :=
  description ++ 10 :: lines.flatMap RouteLine.text

def IsAddress (interfaces : List Interfacerec) (iface : List UInt8) (a : Nat) : Prop :=
  ∃ e ∈ interfaces, e.ifname = iface ∧ e.addr = a

def Holds (interfaces : List Interfacerec) (l : RouteLine) (r : Routerec) : Prop :=
  r.addr = l.network ∧ r.naddr = l.netmask ∧
    ∃ e, interfaces[r.iface]? = some e ∧ e.ifname = l.iface

/-! ## Reading a line -/

section Reading

variable {o : ByteOrder} {w f ds rest : List UInt8} {n : Nat} {l : RouteLine}
  {interfaces : List Interfacerec}

theorem fgets_line (plain : 10 ∉ w) (fits : w.length < n) :
    fgets n (w ++ 10 :: f) = { read := w ++ [10], rest := f, eof := false } := by
  induction w generalizing n with
  | nil =>
    obtain ⟨n, rfl⟩ : ∃ k, n = k + 1 := ⟨n - 1, by simp at fits; omega⟩
    rfl
  | cons c w ih =>
    obtain ⟨n, rfl⟩ : ∃ k, n = k + 1 := ⟨n - 1, by simp at fits; omega⟩
    rw [List.mem_cons, not_or] at plain
    rw [List.length_cons] at fits
    rw [List.cons_append, fgets, if_neg (Ne.symm plain.1), ih plain.2 (by omega)]
    rfl

/-- A line that is printed is read as a whole. -/
theorem RouteLine.Printed.readBuf (printed : l.Printed o) :
    readBuf (l.text ++ f) = { read := l.text, rest := f, eof := false } := by
  have plain : 10 ∉ l.fields.flatMap (· ++ [9]) ++ l.others := by
    intro member
    rcases List.mem_append.mp member with field | other
    · obtain ⟨w, inside, here⟩ := List.mem_flatMap.mp field
      rcases List.mem_append.mp here with here | tab
      · exact ((printed.fields w inside).2 10 here).2.2 rfl
      · exact absurd tab (by decide)
    · exact printed.others other
  have short := printed.short
  unfold text at short ⊢
  rw [List.length_append] at short
  rw [List.append_assoc _ [10] f]
  exact fgets_line plain (by simp at short ⊢; omega)

theorem strtok_cons (nonempty : w ≠ []) (plain : ∀ c ∈ w, c ≠ 9 ∧ c ≠ 32) :
    strtok (w ++ 9 :: rest) = w :: strtok rest := by
  have whole : w.splitOnP (fun c => c == 9 || c == 32) = [w] :=
    List.splitOnP_eq_singleton fun c member => by simp [plain c member]
  rw [strtok, List.splitOnP_append_cons w rest (by decide), whole, List.filter_append,
    List.filter_cons_of_pos (by simpa using nonempty)]
  rfl

theorem strtok_fields {ws : List (List UInt8)}
    (plain : ∀ w ∈ ws, w ≠ [] ∧ ∀ c ∈ w, c ≠ 9 ∧ c ≠ 32) :
    strtok (ws.flatMap (· ++ [9]) ++ rest) = ws ++ strtok rest := by
  induction ws with
  | nil => rfl
  | cons w ws ih =>
    obtain ⟨nonempty, letters⟩ := plain w List.mem_cons_self
    rw [List.flatMap_cons, List.append_assoc, List.append_assoc, List.singleton_append,
      strtok_cons nonempty letters, ih fun v member => plain v (List.mem_cons_of_mem _ member)]
    rfl

theorem digitsValue_lt (digits : ∀ c ∈ ds, digitVal c < 16) :
    digitsValue 16 n ds < (n + 1) * 16 ^ ds.length := by
  induction ds generalizing n with
  | nil => simp [digitsValue]
  | cons c ds ih =>
    have digit := digits c List.mem_cons_self
    have rest := ih (n := n * 16 + digitVal c) fun x member =>
      digits x (List.mem_cons_of_mem _ member)
    have carry : (n * 16 + digitVal c + 1) * 16 ^ ds.length ≤ (n + 1) * 16 ^ (ds.length + 1) := by
      rw [Nat.pow_succ, Nat.mul_comm (16 ^ ds.length), ← Nat.mul_assoc]
      exact Nat.mul_le_mul_right _ (by omega)
    exact Nat.lt_of_lt_of_le rest carry

theorem address_lt (digits : ∀ c ∈ ds, digitVal c < 16) (short : ds.length ≤ 8) :
    digitsValue 16 0 ds < 2 ^ 32 :=
  calc digitsValue 16 0 ds < (0 + 1) * 16 ^ ds.length := digitsValue_lt digits
    _ ≤ 1 * 16 ^ 8 := Nat.mul_le_mul_left 1 (Nat.pow_le_pow_right (by decide) short)
    _ = 2 ^ 32 := by decide

/-- An address that is printed is read back. -/
theorem strtoul16_digits (digits : ∀ c ∈ ds, digitVal c < 16) (short : ds.length ≤ 8) :
    strtoul16 ds = digitsValue 16 0 ds := by
  have letter (x : UInt8) (large : 16 ≤ digitVal x) : x ∉ ds := fun member =>
    absurd (digits x member) (by omega)
  -- digits are neither blanks nor signs, and no `0x` is in front of them
  have space : ds.dropWhile isSpace = ds := by
    cases ds with
    | nil => rfl
    | cons c ds =>
      refine List.dropWhile_cons_of_neg fun blank => ?_
      have digit := digits c List.mem_cons_self
      simp only [isSpace, Bool.or_eq_true, beq_iff_eq, Bool.and_eq_true, decide_eq_true_eq] at blank
      have small : c.toNat < 48 := by
        rcases blank with rfl | range
        · decide
        · omega
      unfold digitVal at digit
      rw [if_neg (by omega), if_neg (by omega), if_neg (by omega)] at digit
      exact absurd digit (by decide)
  have sign (x : UInt8) (large : 16 ≤ digitVal x) : ds.head? ≠ some x := fun head =>
    letter x large (List.mem_of_head? head)
  have hex : isHex ds = false := by
    have other (x : UInt8) (large : 16 ≤ digitVal x) : (ds[1]? == some x) = false := by
      rw [beq_eq_false_iff_ne]
      exact fun second => letter x large (List.mem_of_getElem? second)
    rw [isHex, other 120 (by decide), other 88 (by decide)]
    rfl
  have value := address_lt digits short
  have minus := sign 45 (by decide)
  have plus := sign 43 (by decide)
  have whole : takeDigits 16 0 ds = (digitsValue 16 0 ds, []) := takeDigits_all digits
  rw [strtoul16, space]
  simp only [minus, plus, hex, whole, Bool.false_eq_true, and_false, or_false, if_false]
  rw [if_neg (by omega)]

theorem findInterface_listed {iface : List UInt8} (listed : ∃ e ∈ interfaces, e.ifname = iface) :
    ∃ k e, findInterface interfaces iface = some k ∧ interfaces[k]? = some e ∧
      e.ifname = iface := by
  obtain ⟨e, member, name⟩ := listed
  obtain ⟨k, bound, at_k⟩ := List.mem_iff_getElem.mp member
  cases found : findInterface interfaces iface with
  | none =>
    have none_found := List.find?_eq_none.mp found k (by simp [bound])
    simp [at_k, name, bound] at none_found
  | some j =>
    have name' := List.find?_some found
    simp only [beq_iff_eq, Option.map_eq_some_iff] at name'
    obtain ⟨e', at_j, name'⟩ := name'
    exact ⟨j, e', rfl, at_j, name'⟩

/-- A line that is printed fills in its route. -/
theorem fillRoute_printed (printed : l.Printed o)
    (listed : ∃ e ∈ interfaces, e.ifname = l.iface) (r : Routerec) :
    ∃ r', fillRoute interfaces l.text r = some r' ∧ Holds interfaces l r' := by
  obtain ⟨k, e, found, at_k, name⟩ := findInterface_listed listed
  refine ⟨{ addr := l.network, naddr := l.netmask, iface := k }, ?_, rfl, rfl, e, at_k, name⟩
  have tokens : strtok l.text =
      l.iface :: l.destination :: (l.between ++ [l.mask]) ++ strtok (l.others ++ [10]) := by
    rw [RouteLine.text, List.append_assoc]
    exact strtok_fields fun w member =>
      ⟨(printed.fields w member).1, fun c here => by
        obtain ⟨tab, space, -⟩ := (printed.fields w member).2 c here
        exact ⟨tab, space⟩⟩
  have seventh (later : List (List UInt8)) :
      (l.destination :: (l.between ++ [l.mask]) ++ later)[6]? = some l.mask := by
    have five := printed.between
    simp [five]
  have name_short := printed.name
  obtain ⟨digits, short⟩ := printed.destination
  obtain ⟨digits', short'⟩ := printed.mask
  rw [fillRoute, tokens, List.cons_append]
  dsimp only
  rw [if_neg (Nat.not_le.mpr name_short), seventh, List.cons_append, List.head?_cons]
  simp only [bind, Option.bind_some, found, strtoul16_digits digits short,
    strtoul16_digits digits' short', Nat.mod_eq_of_lt (address_lt digits short)]
  rfl

end Reading

/-! ## Reading the file -/

section File

variable {o : ByteOrder} {interfaces : List Interfacerec} {lines : List RouteLine}

theorem length_le_flatMap (lines : List RouteLine) :
    lines.length ≤ (lines.flatMap RouteLine.text).length := by
  induction lines with
  | nil => exact Nat.le_refl 0
  | cons l lines ih =>
    have some_byte : 1 ≤ l.text.length := by
      simp only [RouteLine.text, List.length_append, List.length_singleton]
      omega
    rw [List.flatMap_cons, List.length_append, List.length_cons]
    omega

/-- The loop that counts goes round once more than there are lines. -/
theorem countLines_printed (printed : ∀ l ∈ lines, l.Printed o) (fuel : Nat) (before : List UInt8)
    (n : Nat) (enough : lines.length + 2 ≤ fuel) :
    countLines fuel { read := before, rest := lines.flatMap RouteLine.text, eof := false } n =
      some (n + lines.length + 1) := by
  induction lines generalizing fuel before n with
  -- the end of the file is found by reading once more
  | nil =>
    obtain ⟨fuel, rfl⟩ : ∃ k, fuel = k + 2 := ⟨fuel - 2, by simp at enough; omega⟩
    rfl
  | cons l lines ih =>
    obtain ⟨fuel, rfl⟩ : ∃ k, fuel = k + 1 := ⟨fuel - 1, by simp at enough; omega⟩
    rw [List.length_cons] at enough
    have first := (printed l List.mem_cons_self).readBuf (f := lines.flatMap RouteLine.text)
    rw [countLines, if_neg Bool.false_ne_true, List.flatMap_cons, first,
      ih (fun l' member => printed l' (List.mem_cons_of_mem _ member)) _ _ _ (by omega),
      List.length_cons]
    congr 1
    omega

theorem fillRoutes_printed (printed : ∀ l ∈ lines, l.Printed o)
    (listed : ∀ l ∈ lines, ∃ e ∈ interfaces, e.ifname = l.iface) (junk : Nat → Routerec) (i : Nat) :
    ∃ routes, fillRoutes interfaces junk lines.length i (lines.flatMap RouteLine.text) =
        some routes ∧
      List.Forall₂ (Holds interfaces) lines routes := by
  induction lines generalizing i with
  | nil => exact ⟨[], rfl, .nil⟩
  | cons l lines ih =>
    obtain ⟨routes, filled, all⟩ := ih
      (fun l' member => printed l' (List.mem_cons_of_mem _ member))
      (fun l' member => listed l' (List.mem_cons_of_mem _ member)) (i + 1)
    have first := printed l List.mem_cons_self
    obtain ⟨r, route, holds⟩ := fillRoute_printed first (listed l List.mem_cons_self) (junk i)
    refine ⟨r :: routes, ?_, .cons holds all⟩
    have nonempty : l.text ≠ [] := by simp [RouteLine.text]
    rw [List.length_cons, List.flatMap_cons, fillRoutes, first.readBuf]
    dsimp only
    rw [if_neg nonempty, if_neg (Nat.ne_of_lt first.short), route]
    simp only [bind, Option.bind_some, filled]

theorem initRouteTables_printed {description : List UInt8} (plain : 10 ∉ description)
    (fits : description.length < sizeofBuf - 1) (printed : ∀ l ∈ lines, l.Printed o)
    (listed : ∀ l ∈ lines, ∃ e ∈ interfaces, e.ifname = l.iface) (few : lines.length < 2 ^ 15)
    (junk : Nat → Routerec) :
    ∃ routes, initRouteTables interfaces junk (routeFile description lines) = some routes ∧
      List.Forall₂ (Holds interfaces) lines routes := by
  obtain ⟨routes, filled, all⟩ := fillRoutes_printed printed listed junk 0
  refine ⟨routes, ?_, all⟩
  have first : readBuf (routeFile description lines) =
      { read := description ++ [10], rest := lines.flatMap RouteLine.text, eof := false } :=
    fgets_line plain fits
  have longer : lines.length ≤ (lines.flatMap RouteLine.text).length := length_le_flatMap lines
  have count := countLines_printed printed ((routeFile description lines).length + 2)
    (description ++ [10]) 0 (by
      simp only [routeFile, List.length_append, List.length_cons]
      omega)
  -- the loop has counted one line too many, which is taken off; the count is a `short`
  have short : (toShort ((0 + lines.length + 1 : Nat) - 1)).toNat = lines.length := by
    unfold toShort
    omega
  simp only [initRouteTables, first, count, bind, Option.bind_some, short, filled]

/-- The loop of `getlocalip` stops at the first route that matches. -/
theorem find?_holds (dest : Nat) {routes : List Routerec}
    (all : List.Forall₂ (Holds interfaces) lines routes) :
    Option.Rel (Holds interfaces) (lines.find? (RouteLine.Matches dest ·))
      (routes.find? fun r => dest &&& r.naddr = r.addr) := by
  induction all with
  | nil => exact .none
  | @cons l r lines routes holds all ih =>
    have addr := holds.1
    have naddr := holds.2.1
    by_cases here : RouteLine.Matches dest l
    case pos =>
      rw [List.find?_cons_of_pos (by simpa using here),
        List.find?_cons_of_pos (by rw [addr, naddr]; exact decide_eq_true here)]
      exact .some holds
    case neg =>
      rw [List.find?_cons_of_neg (by simpa using here),
        List.find?_cons_of_neg (by rw [addr, naddr, decide_eq_true_eq]; exact here)]
      exact ih

theorem getlocalip_printed {description : List UInt8} (plain : 10 ∉ description)
    (fits : description.length < sizeofBuf - 1) (printed : ∀ l ∈ lines, l.Printed o)
    (listed : ∀ l ∈ lines, ∃ e ∈ interfaces, e.ifname = l.iface) (few : lines.length < 2 ^ 15)
    (junk : Nat → Routerec) (dest : Nat) :
    ∃ a, getlocalip interfaces junk (routeFile description lines) dest = some a ∧
      ((∀ l ∈ lines, ¬ l.Matches dest) ∧ a = 0 ∨
        ∃ l, lines.find? (RouteLine.Matches dest ·) = some l ∧ IsAddress interfaces l.iface a) := by
  obtain ⟨routes, table, all⟩ := initRouteTables_printed plain fits printed listed few junk
  have found := find?_holds dest all
  rw [getlocalip, table]
  simp only [bind, Option.bind_some]
  generalize at_lines : lines.find? _ = line at found
  generalize routes.find? _ = route at found
  cases found with
  | none =>
    refine ⟨0, rfl, .inl ⟨fun l member => ?_, rfl⟩⟩
    simpa using List.find?_eq_none.mp at_lines l member
  | @some l r holds =>
    obtain ⟨-, -, e, at_k, name⟩ := holds
    refine ⟨e.addr, ?_, .inr ⟨l, rfl, e, List.mem_of_getElem? at_k, name, rfl⟩⟩
    dsimp only
    rw [at_k]
    rfl

/-- The first route that matches is used.  It has the longest mask if no route stands in front of
    one with a longer mask that has a destination in common with it.  Without a route the address
    is 0.0.0.0. -/
theorem getlocalip_table {description : List UInt8} (plain : 10 ∉ description)
    (fits : description.length < sizeofBuf - 1) (printed : ∀ l ∈ lines, l.Printed o)
    (listed : ∀ l ∈ lines, ∃ e ∈ interfaces, e.ifname = l.iface) (few : lines.length < 2 ^ 15)
    (junk : Nat → Routerec) (dest : Nat) :
    ∃ a, getlocalip interfaces junk (routeFile description lines) dest = some a ∧
      (∀ front l back, lines = front ++ l :: back → l.Matches dest →
        (∀ l' ∈ front, ¬ l'.Matches dest) → IsAddress interfaces l.iface a) ∧
      (lines.Pairwise (fun l l' => l.len < l'.len → ¬ ∃ d, l.Matches d ∧ l'.Matches d) →
        (∃ l ∈ lines, l.Matches dest) → ∃ l ∈ lines, l.Matches dest ∧
          (∀ l' ∈ lines, l'.Matches dest → l'.len ≤ l.len) ∧ IsAddress interfaces l.iface a) ∧
      ((∀ l ∈ lines, ¬ l.Matches dest) → a = 0) ∧
      ((∀ e ∈ interfaces, e.addr ≠ 0) → a = 0 → ∀ l ∈ lines, ¬ l.Matches dest) := by
  obtain ⟨a, returns, cases⟩ := getlocalip_printed plain fits printed listed few junk dest
  refine ⟨a, returns, ?_⟩
  rcases cases with ⟨none, zero⟩ | ⟨l, found, address⟩
  · refine ⟨fun front l back split here _ => ?_, fun _ ⟨l, member, here⟩ => ?_, fun _ => zero,
      fun _ _ => none⟩
    · exact absurd here (none l (by simp [split]))
    · exact absurd here (none l member)
  · obtain ⟨here, front, back, split, others⟩ := List.find?_eq_some_iff_append.mp found
    have matched : l.Matches dest := of_decide_eq_true here
    have before (l' : RouteLine) (member : l' ∈ front) : ¬ l'.Matches dest := by
      simpa using others l' member
    refine ⟨fun front' l' back' split' here' before' => ?_, fun ordered _ => ?_, fun none => ?_,
      fun nonzero zero => ?_⟩
    · have found' : lines.find? (RouteLine.Matches dest ·) = some l' :=
        List.find?_eq_some_iff_append.mpr ⟨by simpa using here', front', back', split',
          fun x member => by simpa using before' x member⟩
      rw [found] at found'
      rwa [← Option.some.inj found']
    · refine ⟨l, by simp [split], matched, fun l' member here' => ?_, address⟩
      rw [split, List.mem_append, List.mem_cons] at member
      rcases member with early | rfl | late
      · exact absurd here' (before l' early)
      · exact Nat.le_refl _
      · -- a longer mask further back would have a destination in common: this one
        rw [split, List.pairwise_append, List.pairwise_cons] at ordered
        by_contra shorter
        exact ordered.2.1.1 l' late (Nat.not_le.mp shorter) ⟨dest, matched, here'⟩
    · exact absurd matched (none l (by simp [split]))
    · obtain ⟨e, member, -, value⟩ := address
      exact absurd (value.trans zero) (nonzero e member)

end File

/-! ## A host with two interfaces -/

def twoInterfaces : List Interfacerec :=
  [{ ifname := text "eth0", addr := 0x0500000a }, { ifname := text "eth1", addr := 0x0501a8c0 }]

def defaultRoute : RouteLine where
  iface := text "eth0"
  destination := text "00000000"
  between := [text "0100000A", text "0003", text "0", text "0", text "0"]
  mask := text "00000000"
  others := [48, 9, 48, 9, 48]
  len := 0

def lanRoute : RouteLine where
  iface := text "eth1"
  destination := text "0001A8C0"
  between := [text "00000000", text "0001", text "0", text "0", text "0"]
  mask := text "00FFFFFF"
  others := [48, 9, 48, 9, 48]
  len := 24

theorem defaultRoute_printed : defaultRoute.Printed .little := by
  constructor <;> decide +kernel

theorem lanRoute_printed : lanRoute.Printed .little := by
  constructor <;> decide +kernel

/-- With the default route at the end, 192.168.1.7 is reached from 192.168.1.5. -/
theorem getlocalip_table_default_last :
    ∃ a, getlocalip twoInterfaces (fun _ => ⟨0, 0, 0⟩)
        (routeFile (text "Iface Destination") [lanRoute, defaultRoute]) 0x0701a8c0 = some a ∧
      IsAddress twoInterfaces lanRoute.iface a := by
  have fits : (text "Iface Destination").length < sizeofBuf - 1 := by decide
  have printed : ∀ l ∈ [lanRoute, defaultRoute], l.Printed .little := by
    simp [defaultRoute_printed, lanRoute_printed]
  have listed : ∀ l ∈ [lanRoute, defaultRoute], ∃ e ∈ twoInterfaces, e.ifname = l.iface := by
    decide
  obtain ⟨a, returns, first, -⟩ := getlocalip_table (by decide) fits printed listed (by decide)
    (fun _ => ⟨0, 0, 0⟩) 0x0701a8c0
  exact ⟨a, returns, first [] lanRoute [defaultRoute] rfl (by decide) (by simp)⟩

/-- With the default route in front it is not. -/
theorem getlocalip_default_first :
    ¬ ∃ a, getlocalip twoInterfaces (fun _ => ⟨0, 0, 0⟩)
        (routeFile (text "Iface Destination") [defaultRoute, lanRoute]) 0x0701a8c0 = some a ∧
      ∃ l ∈ [defaultRoute, lanRoute], l.Matches 0x0701a8c0 ∧
        (∀ l' ∈ [defaultRoute, lanRoute], l'.Matches 0x0701a8c0 → l'.len ≤ l.len) ∧
        IsAddress twoInterfaces l.iface a := by
  rintro ⟨a, returns, l, member, -, longest, e, inside, name, address⟩
  have fits : (text "Iface Destination").length < sizeofBuf - 1 := by decide
  have printed : ∀ l ∈ [defaultRoute, lanRoute], l.Printed .little := by
    simp [defaultRoute_printed, lanRoute_printed]
  have listed : ∀ l ∈ [defaultRoute, lanRoute], ∃ e ∈ twoInterfaces, e.ifname = l.iface := by
    decide
  obtain ⟨a', returns', cases⟩ := getlocalip_printed (by decide) fits printed listed (by decide)
    (fun _ => ⟨0, 0, 0⟩) 0x0701a8c0
  rw [returns] at returns'
  cases returns'
  have eth0 : ∀ e ∈ twoInterfaces, e.ifname = defaultRoute.iface → e.addr = 0x0500000a := by
    decide
  have eth1 : ∀ e ∈ twoInterfaces, e.ifname = lanRoute.iface → e.addr ≠ 0x0500000a := by decide
  have used : a = 0x0500000a := by
    rcases cases with ⟨none, -⟩ | ⟨l', found, e', inside', name', rfl⟩
    · exact absurd (by decide) (none defaultRoute List.mem_cons_self)
    · rw [List.find?_cons_of_pos (by decide)] at found
      cases found
      exact eth0 e' inside' name'
  have long := longest lanRoute (by simp) (by decide)
  have lan : l = lanRoute := by
    rcases List.mem_cons.mp member with rfl | member
    · exact absurd long (by decide)
    · exact List.mem_singleton.mp member
  rw [lan] at name
  exact eth1 e inside name (address.trans used)

end Cheops.IpUtils
