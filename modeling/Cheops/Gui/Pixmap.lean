import Cheops.Lib.Bytes
import Cheops.Lib.Keyed
import Cheops.Lib.Run

/-! # The pixmaps of operating systems (`gui-pixmap.c`)

The entries of a linked list say which pixmap a host gets whose operating system has some string in
its name.  Strings overlap, so the order of the entries decides; a new entry is put in front.
-/

namespace Cheops.Gui.Pixmap

open Cheops.Lib Cheops.Lib.Keyed

/-! ## The list -/

/-- `os_pixmap_list_t`, without its link.  `addr` is its address. -/
structure OsPixmap where
  addr : Nat
  string : List UInt8
  pixmapName : List UInt8
deriving DecidableEq, Repr

/-- `os_pixmap_list`.  The entries are numbered in the order in which they are inserted; `mallocs`
    is the next number. -/
structure OsPixmaps where
  list : List OsPixmap
  mallocs : Nat
deriving DecidableEq, Repr

def write (addr : Nat) (f : OsPixmap → OsPixmap) (list : List OsPixmap) : List OsPixmap :=
  list.map fun p => if p.addr = addr then f p else p

def osPixmapListAdd (s : OsPixmaps) (string pixmap : List UInt8) : OsPixmaps × Nat :=
  match s.list.find? fun p => p.string = string with
  | some p =>
    ({ s with list := write p.addr (fun p => { p with pixmapName := pixmap }) s.list }, p.addr)
  | none => ({ list := ⟨s.mallocs, string, pixmap⟩ :: s.list, mallocs := s.mallocs + 1 }, s.mallocs)

def osPixmapListRemovePtr (s : OsPixmaps) (q : Nat) : OsPixmaps :=
  { s with list := s.list.eraseP (·.addr = q) }

def osPixmapListChange (s : OsPixmaps) (osp : Nat) (string pixmap : List UInt8) :
    OsPixmaps × Option Nat :=
  match s.list.find? (·.addr = osp) with
  | some ret =>
    let s := { s with
      list := write ret.addr (fun p => { p with string, pixmapName := pixmap }) s.list }
    if s.list.any fun p => p.addr ≠ ret.addr ∧ p.string = string then
      (osPixmapListRemovePtr s ret.addr, none)
    else (s, some ret.addr)
  | none => (s, none)

def osPixmapListRemove (s : OsPixmaps) (string pixmap : List UInt8) : OsPixmaps :=
  { s with list := s.list.eraseP fun p => string = p.string ∧ pixmap = p.pixmapName }

def defaultList : List (String × String) :=
  [("ATLAS", "atlas800.xpm"), ("RedBack", "redback.xpm"), ("Cisco", "cisco.xpm"),
   ("Printer", "printer.xpm"), ("Linux", "linux.xpm"), ("Mac", "mac.xpm"),
   ("OS X", "macosx.xpm"), ("IBM", "ibm.xpm"), ("Novell", "novell.xpm"), ("UNIX", "unix.xpm"),
   ("Windows", "windows.xpm"), ("HP", "hp.xpm"), ("BSD", "bsd.xpm"), ("SCO", "sco.xpm"),
   ("VMS", "vms.xpm"), ("Solaris", "solaris.xpm"), ("Hub", "hub.xpm"), ("QNX", "qnx.xpm")]

def osPixmapListDefault (s : OsPixmaps) : OsPixmaps :=
  defaultList.foldl (fun s c => (osPixmapListAdd s (text c.1) (text c.2)).1) { s with list := [] }

def unknownXpm : List UInt8 := text "unknown.xpm"

/-- `os_pixmaps_make_dialog` for a new entry.  `entered` are the string and the pixmap that the
    user enters, if the dialog is not cancelled. -/
def osPixmapsMakeDialog (s : OsPixmaps) (entered : Option (List UInt8 × List UInt8)) :
    OsPixmaps × Option Nat :=
  match entered with
  | some (string, pixmap) =>
    if pixmap ≠ [] ∧ string ≠ [] then
      let (s, p) := osPixmapListAdd s string pixmap
      (s, some p)
    else (s, none)
  | none => (s, none)

/-- The list as `os_pixmap_list_get` searches it. -/
def OsPixmaps.loaded (s : OsPixmaps) : OsPixmaps :=
  if s.list = [] then osPixmapListDefault s else s

def osPixmapListGet (s : OsPixmaps) (string : List UInt8)
    (entered : Option (List UInt8 × List UInt8)) : OsPixmaps × List UInt8 :=
  let s := s.loaded
  match s.list.find? fun p => p.string <:+: string with
  | some p => (s, p.pixmapName)
  | none =>
    if string = [] then (s, unknownXpm)
    else
      let (s, p) := osPixmapsMakeDialog s entered
      match p.bind fun p => s.list.find? (·.addr = p) with
      | some p => (s, p.pixmapName)
      | none => (s, unknownXpm)

/-! ## Sequences of calls -/

inductive Op where
  | add (string pixmap : List UInt8)
  | change (osp : Nat) (string pixmap : List UInt8)
  | remove (string pixmap : List UInt8)
  | removePtr (q : Nat)
  | default
  | get (string : List UInt8) (entered : Option (List UInt8 × List UInt8))
deriving DecidableEq, Repr

def exec (s : OsPixmaps) : Op → OsPixmaps
  | .add string pixmap => (osPixmapListAdd s string pixmap).1
  | .change osp string pixmap => (osPixmapListChange s osp string pixmap).1
  | .remove string pixmap => osPixmapListRemove s string pixmap
  | .removePtr q => osPixmapListRemovePtr s q
  | .default => osPixmapListDefault s
  | .get string entered => (osPixmapListGet s string entered).1

/-- An entry that is changed is one of the list. -/
def Callable (s : OsPixmaps) : Op → Prop
  | .change osp .. => ∃ p ∈ s.list, p.addr = osp
  | _ => True

instance (s : OsPixmaps) : (op : Op) → Decidable (Callable s op)
  | .change osp .. => inferInstanceAs (Decidable (∃ p ∈ s.list, p.addr = osp))
  | .add .. | .remove .. | .removePtr _ | .default | .get .. => inferInstanceAs (Decidable True)

def Step (s : OsPixmaps) (op : Op) (s' : OsPixmaps) : Prop := Callable s op ∧ s' = exec s op

def initial : OsPixmaps := ⟨[], 0⟩

/-! ## The invariant -/

def OsPixmaps.addrs (s : OsPixmaps) : List Nat := s.mallocs :: s.list.map (·.addr)

/-- No string stands in the list twice, and later insertions stand in front of earlier ones. -/
structure OsPixmaps.Inv (s : OsPixmaps) : Prop where
  strings : Distinct OsPixmap.string s.list
  recent : s.addrs.Pairwise (· > ·)

variable {s s' : OsPixmaps} {l l₁ l₂ : List OsPixmap} {p : OsPixmap} {string pixmap : List UInt8}

theorem initial_inv : initial.Inv := ⟨List.nodup_nil, List.pairwise_singleton _ _⟩

theorem OsPixmaps.Inv.recent' (inv : s.Inv) : s.list.Pairwise fun p q => q.addr < p.addr :=
  List.pairwise_map.mp (List.pairwise_cons.mp inv.recent).2

theorem OsPixmaps.Inv.addresses (inv : s.Inv) : Distinct OsPixmap.addr s.list :=
  List.pairwise_map.mpr (inv.recent'.imp fun later => Nat.ne_of_gt later)

/-- Entries may go. -/
theorem OsPixmaps.Inv.sublist (inv : s.Inv) (sub : l.Sublist s.list) : Inv { s with list := l } :=
  ⟨(sub.map _).nodup inv.strings, inv.recent.sublist ((sub.map _).cons_cons _)⟩

/-- An entry in the middle may get another string, as long as no other entry has it. -/
theorem OsPixmaps.Inv.written (inv : s.Inv) (split : s.list = l₁ ++ p :: l₂) {p' : OsPixmap}
    (addr : p'.addr = p.addr) (alone : ∀ q ∈ l₁ ++ l₂, q.string ≠ p'.string) :
    Inv { s with list := l₁ ++ p' :: l₂ } := by
  constructor
  case strings =>
    have others := (Distinct.middle.mp (split ▸ inv.strings)).1
    exact Distinct.middle.mpr ⟨others, alone⟩
  case recent =>
    have recent := inv.recent
    unfold OsPixmaps.addrs at recent ⊢
    rw [split] at recent
    simpa [addr] using recent

/-! ## The operations -/

/-- The string of an entry is added: the entry gets the pixmap. -/
theorem osPixmapListAdd_present (inv : s.Inv) (split : s.list = l₁ ++ p :: l₂)
    (pixmap : List UInt8) :
    osPixmapListAdd s p.string pixmap =
      ({ s with list := l₁ ++ { p with pixmapName := pixmap } :: l₂ }, p.addr) := by
  have listed : p ∈ s.list := by simp [split]
  have found : s.list.find? (fun q => q.string = p.string) = some p := inv.strings.lookup listed
  have written := map_write_middle (split ▸ inv.addresses) fun p => { p with pixmapName := pixmap }
  rw [← split] at written
  unfold osPixmapListAdd
  rw [found]
  exact congrArg (fun list => ({ s with list }, p.addr)) written

theorem osPixmapListAdd_absent (absent : ∀ p ∈ s.list, p.string ≠ string) (pixmap : List UInt8) :
    osPixmapListAdd s string pixmap =
      ({ list := ⟨s.mallocs, string, pixmap⟩ :: s.list, mallocs := s.mallocs + 1 },
        s.mallocs) := by
  have missed : s.list.find? (fun p => p.string = string) = none := lookup_eq_none.mpr absent
  unfold osPixmapListAdd
  rw [missed]

theorem OsPixmaps.Inv.add (inv : s.Inv) (string pixmap : List UInt8) :
    Inv (osPixmapListAdd s string pixmap).1 := by
  by_cases present : ∃ p ∈ s.list, p.string = string
  case pos =>
    obtain ⟨p, listed, rfl⟩ := present
    obtain ⟨l₁, l₂, split⟩ := List.append_of_mem listed
    rw [osPixmapListAdd_present inv split]
    have middle : Distinct OsPixmap.string (l₁ ++ p :: l₂) := split ▸ inv.strings
    exact inv.written split rfl (Distinct.middle.mp middle).2
  case neg =>
    have absent : ∀ p ∈ s.list, p.string ≠ string := fun p listed same =>
      present ⟨p, listed, same⟩
    rw [osPixmapListAdd_absent absent]
    constructor
    case strings => exact (@Distinct.middle _ _ _ [] s.list _).mpr ⟨inv.strings, absent⟩
    -- the new entry has the largest number so far, and is in front
    case recent =>
      refine List.pairwise_cons.mpr ⟨fun addr listed => ?_, inv.recent⟩
      rcases List.mem_cons.mp listed with rfl | listed
      · exact Nat.lt_succ_self _
      · exact Nat.lt_succ_of_lt ((List.pairwise_cons.mp inv.recent).1 addr listed)

/-- What the first loop of `os_pixmap_list_change` writes. -/
theorem write_change (inv : s.Inv) (split : s.list = l₁ ++ p :: l₂) (string pixmap : List UInt8) :
    write p.addr (fun p => { p with string, pixmapName := pixmap }) s.list =
      l₁ ++ ⟨p.addr, string, pixmap⟩ :: l₂ := by
  rw [split]
  exact map_write_middle (split ▸ inv.addresses) fun p => { p with string, pixmapName := pixmap }

/-- What the second loop finds. -/
theorem any_change (inv : s.Inv) (split : s.list = l₁ ++ p :: l₂) (string pixmap : List UInt8) :
    ((l₁ ++ ⟨p.addr, string, pixmap⟩ :: l₂).any fun q => q.addr ≠ p.addr ∧ q.string = string) =
      true ↔ ∃ q ∈ l₁ ++ l₂, q.string = string := by
  have others := (Distinct.middle.mp (split ▸ inv.addresses)).2
  rw [List.any_eq_true]
  constructor
  · rintro ⟨q, listed, test⟩
    obtain ⟨other, same⟩ := of_decide_eq_true test
    rw [List.perm_middle.mem_iff] at listed
    cases listed with
    | head => exact absurd rfl other
    | tail _ listed => exact ⟨q, listed, same⟩
  · rintro ⟨q, listed, same⟩
    refine ⟨q, ?_, decide_eq_true ⟨others q listed, same⟩⟩
    rw [List.perm_middle.mem_iff]
    exact .tail _ listed

/-- Another entry has the string: the changed one goes. -/
theorem osPixmapListChange_taken (inv : s.Inv) (split : s.list = l₁ ++ p :: l₂)
    (taken : ∃ q ∈ l₁ ++ l₂, q.string = string) (pixmap : List UInt8) :
    osPixmapListChange s p.addr string pixmap = ({ s with list := l₁ ++ l₂ }, none) := by
  have listed : p ∈ s.list := by simp [split]
  have found : s.list.find? (fun q => q.addr = p.addr) = some p := inv.addresses.lookup listed
  have middle : Distinct OsPixmap.addr (l₁ ++ p :: l₂) := split ▸ inv.addresses
  have addresses : Distinct OsPixmap.addr (l₁ ++ ⟨p.addr, string, pixmap⟩ :: l₂) :=
    Distinct.middle.mpr ⟨(Distinct.middle.mp middle).1, (Distinct.middle.mp middle).2⟩
  unfold osPixmapListChange
  rw [found]
  simp only [write_change inv split]
  rw [if_pos ((any_change inv split string pixmap).mpr taken), osPixmapListRemovePtr]
  exact congrArg (fun list => ({ s with list }, none)) (eraseP_middle addresses)

theorem osPixmapListChange_free (inv : s.Inv) (split : s.list = l₁ ++ p :: l₂)
    (free : ∀ q ∈ l₁ ++ l₂, q.string ≠ string) (pixmap : List UInt8) :
    osPixmapListChange s p.addr string pixmap =
      ({ s with list := l₁ ++ ⟨p.addr, string, pixmap⟩ :: l₂ }, some p.addr) := by
  have listed : p ∈ s.list := by simp [split]
  have found : s.list.find? (fun q => q.addr = p.addr) = some p := inv.addresses.lookup listed
  have alone : ¬ ∃ q ∈ l₁ ++ l₂, q.string = string := fun ⟨q, listed, same⟩ => free q listed same
  unfold osPixmapListChange
  rw [found]
  simp only [write_change inv split]
  rw [if_neg (mt (any_change inv split string pixmap).mp alone)]

theorem OsPixmaps.Inv.change (inv : s.Inv) {osp : Nat} (callable : ∃ p ∈ s.list, p.addr = osp)
    (string pixmap : List UInt8) : Inv (osPixmapListChange s osp string pixmap).1 := by
  obtain ⟨p, listed, rfl⟩ := callable
  obtain ⟨l₁, l₂, split⟩ := List.append_of_mem listed
  by_cases taken : ∃ q ∈ l₁ ++ l₂, q.string = string
  case pos =>
    rw [osPixmapListChange_taken inv split taken]
    refine inv.sublist ?_
    rw [split]
    exact (List.sublist_cons_self p l₂).append_left l₁
  case neg =>
    have free : ∀ q ∈ l₁ ++ l₂, q.string ≠ string := fun q listed same => taken ⟨q, listed, same⟩
    rw [osPixmapListChange_free inv split free]
    exact inv.written split rfl free

theorem OsPixmaps.Inv.default (inv : s.Inv) : Inv (osPixmapListDefault s) := by
  have empty : Inv { s with list := [] } := inv.sublist (List.nil_sublist _)
  unfold osPixmapListDefault
  generalize ({ s with list := [] } : OsPixmaps) = s at empty
  generalize defaultList = entries
  induction entries generalizing s with
  | nil => exact empty
  | cons c entries ih => exact ih _ (empty.add ..)

theorem OsPixmaps.Inv.loaded (inv : s.Inv) : Inv s.loaded := by
  unfold OsPixmaps.loaded
  split
  · exact inv.default
  · exact inv

theorem OsPixmaps.Inv.get (inv : s.Inv) (string : List UInt8)
    (entered : Option (List UInt8 × List UInt8)) : Inv (osPixmapListGet s string entered).1 := by
  have loaded := inv.loaded
  have asked : Inv (osPixmapsMakeDialog s.loaded entered).1 := by
    unfold osPixmapsMakeDialog
    split
    next string pixmap =>
      split
      · exact loaded.add string pixmap
      · exact loaded
    next => exact loaded
  unfold osPixmapListGet
  dsimp only
  split
  · exact loaded
  · split
    · exact loaded
    · split
      · exact asked
      · exact asked

theorem OsPixmaps.Inv.step {op : Op} (inv : s.Inv) (step : Step s op s') : s'.Inv := by
  obtain ⟨callable, rfl⟩ := step
  cases op with
  | add string pixmap => exact inv.add string pixmap
  | change osp string pixmap => exact inv.change callable string pixmap
  | remove string pixmap => exact inv.sublist List.eraseP_sublist
  | removePtr q => exact inv.sublist List.eraseP_sublist
  | default => exact inv.default
  | get string entered => exact inv.get string entered

/-- The search finds the entry that was inserted last. -/
theorem OsPixmaps.Inv.find (inv : s.Inv) {test : OsPixmap → Bool}
    (found : s.list.find? test = some p) :
    p ∈ s.list ∧ test p ∧ ∀ q ∈ s.list, test q → q.addr ≤ p.addr := by
  obtain ⟨holds, l₁, l₂, split, before⟩ := List.find?_eq_some_iff_append.mp found
  have recent := split ▸ inv.recent'
  refine ⟨by simp [split], holds, fun q listed test' => ?_⟩
  rw [split] at listed
  rcases List.mem_append.mp listed with early | late
  · -- what stands in front of the found entry does not pass the test
    have other := before q early
    rw [test'] at other
    cases other
  · cases late with
    | head => exact Nat.le_refl _
    | tail _ late =>
      have behind := (List.pairwise_append.mp recent).2.1
      exact Nat.le_of_lt ((List.pairwise_cons.mp behind).1 q late)

/-! ## What the list is for -/

/-- What the list promises to those that add to it, change it and search it. -/
structure OsPixmaps.Correct (s : OsPixmaps) : Prop where
  distinct : Distinct OsPixmap.string s.list
  replaces : ∀ l₁ p l₂ pixmap, s.list = l₁ ++ p :: l₂ →
    osPixmapListAdd s p.string pixmap =
      ({ s with list := l₁ ++ { p with pixmapName := pixmap } :: l₂ }, p.addr)
  inserts : ∀ string pixmap, (∀ p ∈ s.list, p.string ≠ string) →
    osPixmapListAdd s string pixmap =
      ({ list := ⟨s.mallocs, string, pixmap⟩ :: s.list, mallocs := s.mallocs + 1 }, s.mallocs)
  merges : ∀ l₁ p l₂ string pixmap, s.list = l₁ ++ p :: l₂ →
    (∃ q ∈ l₁ ++ l₂, q.string = string) →
    osPixmapListChange s p.addr string pixmap = ({ s with list := l₁ ++ l₂ }, none)
  changes : ∀ l₁ p l₂ string pixmap, s.list = l₁ ++ p :: l₂ →
    (∀ q ∈ l₁ ++ l₂, q.string ≠ string) →
    osPixmapListChange s p.addr string pixmap =
      ({ s with list := l₁ ++ ⟨p.addr, string, pixmap⟩ :: l₂ }, some p.addr)
  numbered : ∀ p ∈ s.list, p.addr < s.mallocs
  latest : ∀ os entered, (∃ p ∈ s.loaded.list, p.string <:+: os) →
    ∃ p ∈ s.loaded.list, p.string <:+: os ∧
      (∀ q ∈ s.loaded.list, q.string <:+: os → q.addr ≤ p.addr) ∧
      osPixmapListGet s os entered = (s.loaded, p.pixmapName)

/-- After every sequence of calls the strings are distinct, a string that is there is replaced in
    its place, and a search gives the pixmap of the match that was inserted last. -/
theorem pixmaps_latest {ops : List Op} (run : Run Step initial ops s) : s.Correct := by
  have inv : s.Inv := run.state_invariant initial_inv fun _ _ _ inv step => inv.step step
  constructor
  case distinct => exact inv.strings
  case replaces => exact fun l₁ p l₂ pixmap split => osPixmapListAdd_present inv split pixmap
  case inserts => exact fun string pixmap absent => osPixmapListAdd_absent absent pixmap
  case merges =>
    exact fun l₁ p l₂ string pixmap split taken => osPixmapListChange_taken inv split taken pixmap
  case changes =>
    exact fun l₁ p l₂ string pixmap split free => osPixmapListChange_free inv split free pixmap
  case numbered =>
    intro p listed
    exact (List.pairwise_cons.mp inv.recent).1 p.addr (List.mem_map_of_mem listed)
  case latest =>
    intro os entered occurs
    obtain ⟨p, found⟩ : ∃ p, s.loaded.list.find? (fun p => p.string <:+: os) = some p := by
      obtain ⟨q, listed, inside⟩ := occurs
      exact Option.isSome_iff_exists.mp
        (List.find?_isSome.mpr ⟨q, listed, decide_eq_true inside⟩)
    obtain ⟨listed, inside, last⟩ := inv.loaded.find found
    refine ⟨p, listed, of_decide_eq_true inside, fun q listed inside => ?_, ?_⟩
    · exact last q listed (decide_eq_true inside)
    · unfold osPixmapListGet
      simp only [found]

/-- The newer of two matching entries is found, although the older one is changed last. -/
theorem pixmaps_latest_two :
    ∃ s, Run Step initial [.add (text "BSD") (text "a"), .add (text "FreeBSD") (text "b"),
        .change 0 (text "SD") (text "c")] s ∧ s.Correct ∧
      (osPixmapListGet s (text "FreeBSD 4") none).2 = text "b" := by
  have one : Run Step initial [.add (text "BSD") (text "a")] _ := .single ⟨trivial, rfl⟩
  have two := one.snoc (l := Op.add (text "FreeBSD") (text "b")) ⟨trivial, rfl⟩
  have three := two.snoc (l := Op.change 0 (text "SD") (text "c")) ⟨by decide, rfl⟩
  exact ⟨_, three, pixmaps_latest three, by decide⟩

end Cheops.Gui.Pixmap
