import Cheops.Lib.Decimal
import Cheops.Lib.Run

/-! # Monitoring nodes (`cheops-monitoring.c`)

The nodes form a forest.  When a node is added to its parent its path is printed, the ids from the
root on with dots between them; `monitoring_session_run` takes such a path apart and runs the
callbacks of the nodes on it.

`sessions_follow_paths` is about every forest that is built top-down.  The invariant `Forest` says
what paths the nodes have and that siblings have different ids; `Leads` is the way from a list of
siblings down to a node, with the ids along it.
-/

namespace Cheops.Monitoring

open Cheops.Lib

/-! ## Nodes -/

/-- `monitoring_node`.  A callback is named by a `κ`. -/
structure MonitoringNode (κ : Type) where
  id : BitVec 32
  callback : κ
  path : Option (List UInt8)
  children : List Nat

/-- The nodes that are allocated, and `toplevel_list`. -/
structure Nodes (κ : Type) where
  node : Nat → Option (MonitoringNode κ)
  toplevelList : List Nat

def Nodes.start {κ : Type} : Nodes κ := ⟨fun _ => none, []⟩

section Functions

variable {κ : Type}

/-- The loop of `monitoring_node_find` and `monitoring_node_find_toplevel`. -/
def findId (s : Nodes κ) (list : List Nat) (id : BitVec 32) : Option Nat :=
  list.find? fun m => (s.node m).any (·.id == id)

def monitoringNodeFindToplevel (s : Nodes κ) (id : BitVec 32) : Option Nat :=
  findId s s.toplevelList id

def monitoringNodeFind (s : Nodes κ) (parent : Nat) (childId : BitVec 32) : Option Nat := do
  findId s (← s.node parent).children childId

/-- `monitoring_node_new`, which gets the memory at `block`. -/
def monitoringNodeNew (block : Nat) (id : BitVec 32) (cb : κ) (s : Nodes κ) : Nodes κ :=
  { s with node := Function.update s.node block (some ⟨id, cb, none, []⟩) }

def sizeofPath : Nat := 500

/-- `monitoring_node_add_toplevel`: 0 good, 1 bad. -/
def monitoringNodeAddToplevel (m : Option Nat) (s : Nodes κ) : Option (Nat × Nodes κ) :=
  match m with
  | none => some (1, s)
  | some m => do
    let node ← s.node m
    if (monitoringNodeFindToplevel s node.id).isSome then return (1, s)
    return (0, {
      node := Function.update s.node m (some { node with path := some (printed node.id.toInt) })
      toplevelList := s.toplevelList ++ [m] })

/-- `monitoring_node_add`: 0 good, 1 bad.  There is no result if the path does not fit into
    `buffer`, or if the parent has none. -/
def monitoringNodeAdd (parent child : Option Nat) (s : Nodes κ) : Option (Nat × Nodes κ) :=
  match parent, child with
  | some parent, some child => do
    let node ← s.node child
    if (monitoringNodeFind s parent node.id).isSome then return (1, s)
    let buffer := (← (← s.node parent).path) ++ 46 :: printed node.id.toInt
    if buffer.length < sizeofPath then
      let heap := Function.update s.node child (some { node with path := some buffer })
      let above ← heap parent
      return (0, { s with
        node := Function.update heap parent
          (some { above with children := above.children ++ [child] }) })
    else none
  | _, _ => some (1, s)

/-! ## Sessions -/

def MONITOR_STATE_OK : Nat := 0
def MONITOR_STATE_ERROR : Nat := 3

/-- `monitoring_session`; `rest` is what only the callbacks use of it. -/
structure MonitoringSession (ρ : Type) where
  id : Option (List UInt8)
  state : Nat
  error : Option (List UInt8)
  rest : ρ

/-- What a run returns, the session behind it, and the callbacks that it has called, each with its
    node. -/
structure Outcome (κ ρ : Type) where
  returned : Nat
  session : MonitoringSession ρ
  calls : List (κ × Nat)

variable {ρ : Type}

/-- The tokens that `strtok_r` finds between the dots. -/
def strtokR (s : List UInt8) : List (List UInt8) := (s.splitOn 46).filter (· ≠ [])

def failed (error : List UInt8) (session : MonitoringSession ρ) (calls : List (κ × Nat)) :
    Outcome κ ρ :=
  { returned := MONITOR_STATE_ERROR
    session := { session with state := MONITOR_STATE_ERROR, error := some error }
    calls }

/-- The loop, with the node that it has come to and the tokens that are left.  `invoke` says what
    a callback does to the session. -/
def runLoop (invoke : κ → Nat → MonitoringSession ρ → MonitoringSession ρ) (s : Nodes κ) :
    Option Nat → List (List UInt8) → MonitoringSession ρ → List (κ × Nat) →
      Option (Outcome κ ρ)
  | _, [], session, calls => some { returned := session.state, session, calls }
  | m, it :: tokens, session, calls =>
    let value := BitVec.ofInt 32 (atoi it)
    match m with
    | some parent =>
      match monitoringNodeFind s parent value with
      | some m => do
        let node ← s.node m
        runLoop invoke s (some m) tokens (invoke node.callback m session)
          (calls ++ [(node.callback, m)])
      | none => some (failed (text "monitoring node not found") session calls)
    | none =>
      match monitoringNodeFindToplevel s value with
      | some m => do
        let node ← s.node m
        runLoop invoke s (some m) tokens (invoke node.callback m session)
          (calls ++ [(node.callback, m)])
      | none => some (failed (text "toplevel monitoring node not found") session calls)

/-- `monitoring_session_run`, for a session that is not `NULL`. -/
def monitoringSessionRun (invoke : κ → Nat → MonitoringSession ρ → MonitoringSession ρ)
    (s : Nodes κ) (session : MonitoringSession ρ) : Option (Outcome κ ρ) :=
  let session := { session with state := MONITOR_STATE_OK }
  match session.id with
  | none => some (failed (text "ran out of memory") session [])
  | some temp => runLoop invoke s none (strtokR temp) session []

end Functions

/-! ## Building a forest -/

section Forest

variable {κ : Type}

inductive BuildAction (κ : Type) where
  | new (block : Nat) (id : BitVec 32) (cb : κ)
  | addToplevel (m : Nat)
  | add (parent child : Nat)

/-- One step of building top-down: a node is added at one place only, and to a parent that has been
    added itself, as long as the addition is not rejected anyway. -/
inductive Build : Nodes κ → BuildAction κ → Nodes κ → Prop
  | new {s : Nodes κ} {block : Nat} {id : BitVec 32} {cb : κ} (free : s.node block = none) :
      Build s (.new block id cb) (monitoringNodeNew block id cb s)
  | addToplevel {s s' : Nodes κ} {m result : Nat} {node : MonitoringNode κ}
      (here : s.node m = some node)
      (once : node.path = none ∨ (monitoringNodeFindToplevel s node.id).isSome)
      (adds : monitoringNodeAddToplevel (some m) s = some (result, s')) :
      Build s (.addToplevel m) s'
  | add {s s' : Nodes κ} {parent child result : Nat} {above node : MonitoringNode κ}
      (attached : s.node parent = some above) (placed : above.path.isSome)
      (here : s.node child = some node)
      (once : node.path = none ∨ (monitoringNodeFind s parent node.id).isSome)
      (adds : monitoringNodeAdd (some parent) (some child) s = some (result, s')) :
      Build s (.add parent child) s'

/-- The nodes `ns`, each below the one in front of it and the first in `list`, have the ids `xs`. -/
inductive Leads (s : Nodes κ) : List Nat → List Nat → List (BitVec 32) → Prop
  | nil {list : List Nat} : Leads s list [] []
  | cons {list ns : List Nat} {xs : List (BitVec 32)} {m : Nat} {node : MonitoringNode κ}
      (listed : m ∈ list) (here : s.node m = some node) (below : Leads s node.children ns xs) :
      Leads s list (m :: ns) (node.id :: xs)

def Nodes.below (s : Nodes κ) : Option Nat → Option (List Nat)
  | none => some s.toplevelList
  | some p => (s.node p).map (·.children)

def Nodes.pathBelow (s : Nodes κ) (p : Option Nat) (it : List UInt8) : Option (List UInt8) :=
  match p with
  | none => some it
  | some p => ((s.node p).bind (·.path)).map (· ++ 46 :: it)

def Siblings (s : Nodes κ) (list : List Nat) : Prop :=
  ∀ m ∈ list, ∀ m' ∈ list, (s.node m).map (·.id) = (s.node m').map (·.id) → m = m'

/-- The invariant: a node that has been added has the path of its place, and an id of its own. -/
structure Forest (s : Nodes κ) : Prop where
  paths : ∀ p list, s.below p = some list → ∀ m ∈ list, ∃ node, s.node m = some node ∧
    node.path.isSome ∧ node.path = s.pathBelow p (printed node.id.toInt)
  siblings : ∀ p list, s.below p = some list → Siblings s list
  placed : ∀ (m : Nat) (node : MonitoringNode κ), s.node m = some node → node.path.isSome →
    ∃ ns xs, Leads s s.toplevelList (ns ++ [m]) xs

variable {s s' : Nodes κ} {list : List Nat} {m : Nat} {node : MonitoringNode κ}

theorem start_forest : Forest (Nodes.start : Nodes κ) := by
  constructor
  case paths =>
    intro p list there m listed
    cases p with
    | none =>
      cases there
      cases listed
    | some p => cases there
  case siblings =>
    intro p list there m listed
    cases p with
    | none =>
      cases there
      cases listed
    | some p => cases there
  case placed => exact fun m node none => by cases none

/-! ## Looking for an id -/

theorem findId_some {id : BitVec 32} (found : findId s list id = some m) :
    m ∈ list ∧ ∃ node, s.node m = some node ∧ node.id = id := by
  have same := List.find?_some found
  cases here : s.node m with
  | none => simp [here] at same
  | some node => exact ⟨List.mem_of_find?_eq_some found, node, rfl, by simpa [here] using same⟩

theorem findId_none {id : BitVec 32} (missing : findId s list id = none) (listed : m ∈ list)
    (here : s.node m = some node) : node.id ≠ id := by
  have other := List.find?_eq_none.mp missing m listed
  simpa [here] using other

theorem findId_listed (siblings : Siblings s list) (listed : m ∈ list)
    (here : s.node m = some node) : findId s list node.id = some m := by
  cases found : findId s list node.id with
  | none => exact absurd rfl (findId_none found listed here)
  | some m' =>
    obtain ⟨listed', node', here', same⟩ := findId_some found
    rw [siblings m' listed' m listed (by rw [here, here', Option.map_some, same]; rfl)]

/-! ## A node is added -/

structure Grown (s s' : Nodes κ) : Prop where
  toplevel : s.toplevelList ⊆ s'.toplevelList
  kept : ∀ (m : Nat) (node : MonitoringNode κ), s.node m = some node →
    ∃ node', s'.node m = some node' ∧ node'.id = node.id ∧ node.children ⊆ node'.children

theorem Leads.grown {list' ns : List Nat} {xs : List (BitVec 32)} (leads : Leads s list ns xs)
    (grown : Grown s s') (more : list ⊆ list') : Leads s' list' ns xs := by
  induction leads generalizing list' with
  | nil => exact .nil
  | cons listed here below ih =>
    obtain ⟨node', here', same, more'⟩ := grown.kept _ _ here
    rw [← same]
    exact .cons (more listed) here' (ih more')

theorem Leads.snoc {ns : List Nat} {xs : List (BitVec 32)} {p m : Nat}
    {above node : MonitoringNode κ} (leads : Leads s list (ns ++ [p]) xs)
    (attached : s.node p = some above) (listed : m ∈ above.children)
    (here : s.node m = some node) : Leads s list (ns ++ [p] ++ [m]) (xs ++ [node.id]) := by
  induction ns generalizing list xs with
  | nil =>
    cases leads with
    | cons listed' here' below =>
      cases below with
      | nil =>
        cases here'.symm.trans attached
        exact .cons listed' attached (.cons listed here .nil)
  | cons n ns ih =>
    cases leads with
    | cons listed' here' below => exact .cons listed' here' (ih below)

/-- A node without a path is put at the end of a list, and gets the path of its place. -/
structure Adds (s s' : Nodes κ) (q : Option Nat) (list : List Nat) (m : Nat)
    (node : MonitoringNode κ) (path : List UInt8) : Prop where
  here : s.node m = some node
  unplaced : node.path = none
  below : s.below q = some list
  place : s.pathBelow q (printed node.id.toInt) = some path
  fresh : ∀ x ∈ list, (s.node x).map (·.id) ≠ some node.id
  here' : ∃ node', s'.node m = some node' ∧ node'.path = some path
  below' : s'.below q = some (list ++ [m])
  lists : ∀ p, p ≠ q → s'.below p = s.below p
  ids : ∀ x, (s'.node x).map (·.id) = (s.node x).map (·.id)
  others : ∀ x, x ≠ m → (s'.node x).map (·.path) = (s.node x).map (·.path)

section Adds

variable {q : Option Nat} {path : List UInt8}

/-- A node without a path is in no list, and has no children. -/
theorem Forest.unlisted (forest : Forest s) (here : s.node m = some node)
    (unplaced : node.path = none) {p : Option Nat} (below : s.below p = some list) :
    m ∉ list ∧ (p = some m → list = []) := by
  constructor
  · intro listed
    obtain ⟨node', here', has, -⟩ := forest.paths p list below m listed
    cases here.symm.trans here'
    rw [unplaced] at has
    cases has
  · -- its children would have a path below one that it does not have
    rintro rfl
    refine List.eq_nil_iff_forall_not_mem.mpr fun x listed => ?_
    obtain ⟨node', -, has, place⟩ := forest.paths _ list below x listed
    rw [place, Nodes.pathBelow, here, Option.bind_some, unplaced] at has
    cases has

theorem Adds.grown (adds : Adds s s' q list m node path) : Grown s s' := by
  have wider (p : Option Nat) {xs : List Nat} (below : s.below p = some xs) :
      ∃ ys, s'.below p = some ys ∧ xs ⊆ ys := by
    by_cases here : p = q
    case pos =>
      subst here
      cases adds.below.symm.trans below
      exact ⟨_, adds.below', List.subset_append_left _ _⟩
    case neg => exact ⟨xs, (adds.lists p here).trans below, List.Subset.refl xs⟩
  constructor
  case toplevel =>
    obtain ⟨ys, there, more⟩ := wider none rfl
    cases there
    exact more
  case kept =>
    intro x node₁ here
    obtain ⟨ys, there, more⟩ := wider (some x) (by rw [Nodes.below, here]; rfl)
    obtain ⟨node₂, here', rfl⟩ := Option.map_eq_some_iff.mp there
    have same := adds.ids x
    rw [here, here'] at same
    exact ⟨node₂, here', Option.some.inj same, more⟩

theorem Adds.id (adds : Adds s s' q list m node path) {x : Nat} {node₁ node₂ : MonitoringNode κ}
    (here : s.node x = some node₁) (here' : s'.node x = some node₂) : node₂.id = node₁.id := by
  have same := adds.ids x
  rw [here, here'] at same
  exact Option.some.inj same

/-- The nodes that were there keep their ids, and all but the new one their paths. -/
theorem Adds.same_path (adds : Adds s s' q list m node path) {x : Nat} (other : x ≠ m)
    {node₁ : MonitoringNode κ} (here : s.node x = some node₁) :
    ∃ node₂, s'.node x = some node₂ ∧ node₂.id = node₁.id ∧ node₂.path = node₁.path := by
  have same := adds.others x other
  rw [here, Option.map_some] at same
  obtain ⟨node₂, here', path'⟩ := Option.map_eq_some_iff.mp same
  exact ⟨node₂, here', adds.id here here', path'⟩

/-- What stands below another node is the path that it had before. -/
theorem Adds.pathBelow (adds : Adds s s' q list m node path) {p : Option Nat} (other : p ≠ some m)
    (it : List UInt8) : s'.pathBelow p it = s.pathBelow p it := by
  cases p with
  | none => rfl
  | some p =>
    have same := adds.others p fun eq => other (congrArg some eq)
    have paths : (s'.node p).bind (·.path) = (s.node p).bind (·.path) := by
      cases there : s.node p with
      | none =>
        rw [there, Option.map_none, Option.map_eq_none_iff] at same
        rw [same]
      | some above =>
        rw [there, Option.map_some] at same
        obtain ⟨above', there', same⟩ := Option.map_eq_some_iff.mp same
        rw [there', Option.bind_some, Option.bind_some, same]
    rw [Nodes.pathBelow, Nodes.pathBelow, paths]

theorem Adds.elsewhere (adds : Adds s s' q list m node path) : q ≠ some m := by
  rintro rfl
  have place := adds.place
  rw [Nodes.pathBelow, adds.here, Option.bind_some, adds.unplaced] at place
  cases place

/-- The nodes that were in a list have the paths of their places. -/
theorem Adds.kept (adds : Adds s s' q list m node path) {p : Option Nat} (away : p ≠ some m)
    {x : Nat} (other : x ≠ m)
    (before : ∃ node, s.node x = some node ∧ node.path.isSome ∧
      node.path = s.pathBelow p (printed node.id.toInt)) :
    ∃ node, s'.node x = some node ∧ node.path.isSome ∧
      node.path = s'.pathBelow p (printed node.id.toInt) := by
  obtain ⟨node₁, here₁, has, place₁⟩ := before
  obtain ⟨node₂, here₂, id₂, path₂⟩ := adds.same_path other here₁
  refine ⟨node₂, here₂, by rwa [path₂], ?_⟩
  rw [path₂, place₁, adds.pathBelow away, id₂]

theorem Adds.paths (adds : Adds s s' q list m node path) (forest : Forest s) {p : Option Nat}
    {xs : List Nat} (there : s'.below p = some xs) {x : Nat} (listed : x ∈ xs) :
    ∃ node, s'.node x = some node ∧ node.path.isSome ∧
      node.path = s'.pathBelow p (printed node.id.toInt) := by
  by_cases mine : p = q
  case pos =>
    subst mine
    cases adds.below'.symm.trans there
    rcases List.mem_append.mp listed with early | last
    · have other : x ≠ m := by
        rintro rfl
        exact (forest.unlisted adds.here adds.unplaced adds.below).1 early
      exact adds.kept adds.elsewhere other (forest.paths p list adds.below x early)
    · rw [List.mem_singleton.mp last]
      obtain ⟨node', here', placed'⟩ := adds.here'
      refine ⟨node', here', by rw [placed']; rfl, ?_⟩
      rw [placed', adds.pathBelow adds.elsewhere, adds.id adds.here here', adds.place]
  case neg =>
    rw [adds.lists p mine] at there
    obtain ⟨unlisted, childless⟩ := forest.unlisted adds.here adds.unplaced there
    have away : p ≠ some m := by
      intro eq
      rw [childless eq] at listed
      cases listed
    have other : x ≠ m := fun eq => unlisted (eq ▸ listed)
    exact adds.kept away other (forest.paths p xs there x listed)

theorem Adds.siblings (adds : Adds s s' q list m node path) (forest : Forest s) {p : Option Nat}
    {xs : List Nat} (there : s'.below p = some xs) : Siblings s' xs := by
  intro x listed y listed' same
  rw [adds.ids, adds.ids] at same
  by_cases mine : p = q
  case pos =>
    subst mine
    cases adds.below'.symm.trans there
    rcases List.mem_append.mp listed with early | last
    · rcases List.mem_append.mp listed' with early' | last'
      · exact forest.siblings p list adds.below x early y early' same
      · rw [List.mem_singleton.mp last', adds.here] at same
        exact absurd same (adds.fresh x early)
    · rw [List.mem_singleton.mp last, adds.here] at same
      rcases List.mem_append.mp listed' with early' | last'
      · exact absurd same.symm (adds.fresh y early')
      · rw [List.mem_singleton.mp last, List.mem_singleton.mp last']
  case neg =>
    rw [adds.lists p mine] at there
    exact forest.siblings p xs there x listed y listed' same

theorem Adds.placed (adds : Adds s s' q list m node path) (forest : Forest s) {x : Nat}
    {node₂ : MonitoringNode κ} (here₂ : s'.node x = some node₂) (has : node₂.path.isSome) :
    ∃ ns xs, Leads s' s'.toplevelList (ns ++ [x]) xs := by
  have grown := adds.grown
  by_cases mine : x = m
  case pos =>
    subst mine
    have below' := adds.below'
    have listed : x ∈ list ++ [x] := List.mem_append_right _ (List.mem_singleton_self x)
    cases q with
    | none =>
      rw [← show s'.toplevelList = list ++ [x] from Option.some.inj below'] at listed
      exact ⟨[], [node₂.id], .cons listed here₂ .nil⟩
    | some p =>
      obtain ⟨path₁, placed, -⟩ := Option.map_eq_some_iff.mp adds.place
      obtain ⟨above, there, path⟩ := Option.bind_eq_some_iff.mp placed
      obtain ⟨ns, ids, leads⟩ := forest.placed p above there (by rw [path]; rfl)
      obtain ⟨above', there', children⟩ := Option.map_eq_some_iff.mp below'
      rw [← children] at listed
      exact ⟨ns ++ [p], _, (leads.grown grown grown.toplevel).snoc there' listed here₂⟩
  case neg =>
    have same := adds.others x mine
    rw [here₂, Option.map_some] at same
    obtain ⟨node₁, here₁, path₁⟩ := Option.map_eq_some_iff.mp same.symm
    obtain ⟨ns, ids, leads⟩ := forest.placed x node₁ here₁ (by rwa [path₁])
    exact ⟨ns, ids, leads.grown grown grown.toplevel⟩

theorem Adds.forest (adds : Adds s s' q list m node path) (forest : Forest s) : Forest s' where
  paths := fun _ _ there _ listed => adds.paths forest there listed
  siblings := fun _ _ there => adds.siblings forest there
  placed := fun _ _ here has => adds.placed forest here has

/-- An addition is rejected, or puts the node at the end of `toplevel_list`. -/
theorem monitoringNodeAddToplevel_cases {result : Nat} (here : s.node m = some node)
    (adds : monitoringNodeAddToplevel (some m) s = some (result, s')) :
    (result = 1 ∧ s' = s ∧ (monitoringNodeFindToplevel s node.id).isSome) ∨
      (monitoringNodeFindToplevel s node.id = none ∧
        (node.path = none → ∃ list path, Adds s s' none list m node path)) := by
  simp only [monitoringNodeAddToplevel, here, bind, Option.bind_some, pure] at adds
  split at adds
  case isTrue rejected =>
    cases adds
    exact .inl ⟨rfl, rfl, rejected⟩
  case isFalse fresh =>
    cases adds
    rw [Bool.not_eq_true, Option.isSome_eq_false_iff, Option.isNone_iff_eq_none] at fresh
    refine .inr ⟨fresh, fun unplaced => ⟨s.toplevelList, printed node.id.toInt, ?_⟩⟩
    constructor
    case here => exact here
    case unplaced => exact unplaced
    case below => rfl
    case place => rfl
    case fresh =>
      intro x listed same
      obtain ⟨other, there, same⟩ := Option.map_eq_some_iff.mp same
      exact findId_none fresh listed there same
    case here' => exact ⟨_, Function.update_self .., rfl⟩
    case below' => rfl
    case lists =>
      intro p other
      cases p with
      | none => exact absurd rfl other
      | some p =>
        by_cases same : p = m
        case pos => simp [Nodes.below, same, here]
        case neg => simp [Nodes.below, same]
    case ids =>
      intro x
      by_cases same : x = m
      case pos => simp [same, here]
      case neg => simp [same]
    case others =>
      intro x other
      simp [other]

/-- An addition is rejected, or puts the node at the end of the list of its parent. -/
theorem monitoringNodeAdd_cases {p result : Nat} {above : MonitoringNode κ}
    (attached : s.node p = some above) (placed : above.path.isSome) (here : s.node m = some node)
    (adds : monitoringNodeAdd (some p) (some m) s = some (result, s')) :
    (result = 1 ∧ s' = s ∧ (monitoringNodeFind s p node.id).isSome) ∨
      (monitoringNodeFind s p node.id = none ∧
        (node.path = none → ∃ list path, Adds s s' (some p) list m node path)) := by
  obtain ⟨path, placed⟩ := Option.isSome_iff_exists.mp placed
  simp only [monitoringNodeAdd, here, attached, placed, bind, Option.bind_some, pure] at adds
  split at adds
  case isTrue rejected =>
    cases adds
    exact .inl ⟨rfl, rfl, rejected⟩
  case isFalse fresh =>
    split at adds
    case isFalse => cases adds
    case isTrue fits =>
      rw [Bool.not_eq_true, Option.isSome_eq_false_iff, Option.isNone_iff_eq_none] at fresh
      refine .inr ⟨fresh, fun unplaced =>
        ⟨above.children, path ++ 46 :: printed node.id.toInt, ?_⟩⟩
      have apart : p ≠ m := by
        rintro rfl
        cases attached.symm.trans here
        rw [unplaced] at placed
        cases placed
      rw [Function.update_of_ne apart, attached, Option.bind_some] at adds
      cases adds
      rw [monitoringNodeFind, attached] at fresh
      constructor
      case here => exact here
      case unplaced => exact unplaced
      case below => rw [Nodes.below, attached, Option.map_some]
      case place => rw [Nodes.pathBelow, attached, Option.bind_some, placed, Option.map_some]
      case fresh =>
        intro x listed same
        obtain ⟨other, there, same⟩ := Option.map_eq_some_iff.mp same
        exact findId_none fresh listed there same
      case here' => exact ⟨_, (Function.update_of_ne apart.symm ..).trans
          (Function.update_self ..), rfl⟩
      case below' =>
        dsimp only [Nodes.below]
        rw [Function.update_self, Option.map_some]
      case lists =>
        intro a other
        cases a with
        | none => rfl
        | some a =>
          have away : a ≠ p := fun eq => other (congrArg some eq)
          by_cases same : a = m
          case pos => simp [Nodes.below, same, apart.symm, here]
          case neg => simp [Nodes.below, away, same]
      case ids =>
        intro x
        by_cases up : x = p
        case pos => simp [up, attached]
        case neg =>
          by_cases same : x = m
          case pos => simp [same, apart.symm, here]
          case neg => simp [up, same]
      case others =>
        intro x other
        by_cases up : x = p
        case pos => simp [up, attached]
        case neg => simp [up, other]

/-- A new node is in no list. -/
theorem Forest.new (forest : Forest s) {block : Nat} (free : s.node block = none)
    (id : BitVec 32) (cb : κ) : Forest (monitoringNodeNew block id cb s) := by
  have kept {x : Nat} {node : MonitoringNode κ} (here : s.node x = some node) :
      (monitoringNodeNew block id cb s).node x = some node := by
    refine (Function.update_of_ne ?_ ..).trans here
    rintro rfl
    rw [free] at here
    cases here
  -- what is in a list was there before, since a new node has no children
  have lists {p : Option Nat} {list : List Nat}
      (there : (monitoringNodeNew block id cb s).below p = some list) :
      s.below p = some list ∨ list = [] := by
    cases p with
    | none => exact .inl there
    | some p =>
      by_cases new : p = block
      case pos =>
        subst new
        dsimp only [Nodes.below, monitoringNodeNew] at there
        rw [Function.update_self] at there
        exact .inr (Option.some.inj there).symm
      case neg =>
        dsimp only [Nodes.below, monitoringNodeNew] at there
        rw [Function.update_of_ne new] at there
        exact .inl there
  constructor
  case paths =>
    intro p list there m listed
    rcases lists there with old | rfl
    · obtain ⟨node, here, has, place⟩ := forest.paths p list old m listed
      refine ⟨node, kept here, has, ?_⟩
      cases p with
      | none => exact place
      | some p =>
        obtain ⟨above, attached, -⟩ := Option.map_eq_some_iff.mp old
        rw [place, Nodes.pathBelow, Nodes.pathBelow, kept attached, attached]
    · cases listed
  case siblings =>
    intro p list there x listed y listed' same
    rcases lists there with old | rfl
    · obtain ⟨node, here, -⟩ := forest.paths p list old x listed
      obtain ⟨node', here', -⟩ := forest.paths p list old y listed'
      refine forest.siblings p list old x listed y listed' ?_
      rwa [kept here, kept here', ← here, ← here'] at same
    · cases listed
  case placed =>
    intro x node here has
    by_cases new : x = block
    case pos =>
      subst new
      dsimp only [monitoringNodeNew] at here
      rw [Function.update_self] at here
      cases here
      cases has
    case neg =>
      dsimp only [monitoringNodeNew] at here
      rw [Function.update_of_ne new] at here
      obtain ⟨ns, xs, leads⟩ := forest.placed x node here has
      have grown : Grown s (monitoringNodeNew block id cb s) :=
        ⟨List.Subset.refl _, fun m node here => ⟨node, kept here, rfl, List.Subset.refl _⟩⟩
      exact ⟨ns, xs, leads.grown grown (List.Subset.refl _)⟩

theorem Forest.build {a : BuildAction κ} (forest : Forest s) (step : Build s a s') :
    Forest s' := by
  cases step with
  | new free => exact forest.new free _ _
  | addToplevel here once adds =>
    rcases monitoringNodeAddToplevel_cases here adds with ⟨-, rfl, -⟩ | added
    · exact forest
    · obtain ⟨fresh, adds⟩ := added
      obtain ⟨list, path, adds⟩ := adds (once.resolve_right (by simp [fresh]))
      exact adds.forest forest
  | add attached placed here once adds =>
    rcases monitoringNodeAdd_cases attached placed here adds with ⟨-, rfl, -⟩ | added
    · exact forest
    · obtain ⟨fresh, adds⟩ := added
      obtain ⟨list, path, adds⟩ := adds (once.resolve_right (by simp [fresh]))
      exact adds.forest forest

end Adds

/-! ## Paths -/

theorem printed_dot (x : Int) : 46 ∉ printed x := by
  intro member
  rcases mem_printed member with minus | digit
  · exact absurd minus (by decide)
  · exact absurd digit (by decide)

def dotted (ws : List (List UInt8)) : List UInt8 := [46].intercalate ws

theorem strtokR_dotted {ws : List (List UInt8)} (some_word : ws ≠ [])
    (words : ∀ w ∈ ws, w ≠ [] ∧ 46 ∉ w) : strtokR (dotted ws) = ws := by
  rw [strtokR, dotted, List.splitOn_intercalate 46 (fun w member => (words w member).2) some_word]
  exact List.filter_eq_self.mpr fun w member => decide_eq_true (words w member).1

theorem dotted_cons {ws : List (List UInt8)} (some_word : ws ≠ []) (w : List UInt8) :
    dotted (w :: ws) = w ++ 46 :: dotted ws := by
  cases ws with
  | nil => exact absurd rfl some_word
  | cons v ws => simp [dotted, List.intercalate]

def idPath (xs : List (BitVec 32)) : List UInt8 := dotted (xs.map fun x => printed x.toInt)

/-- The path of a node is the ids on the way to it. -/
theorem Forest.path_eq (forest : Forest s) {ns : List Nat} {xs : List (BitVec 32)}
    (leads : Leads s list (ns ++ [m]) xs) {top : Option Nat} (below : s.below top = some list)
    (here : s.node m = some node) : node.path = s.pathBelow top (idPath xs) ∧ xs ≠ [] := by
  induction ns generalizing list xs top with
  | nil =>
    cases leads with
    | cons listed here' below' =>
      cases below'
      cases here.symm.trans here'
      obtain ⟨node', there, -, place⟩ := forest.paths top list below m listed
      cases here.symm.trans there
      refine ⟨?_, List.cons_ne_nil _ _⟩
      rw [place]
      simp [idPath, dotted, List.intercalate]
  | cons n ns ih =>
    cases leads with
    | @cons _ _ xs _ above listed attached below' =>
      obtain ⟨above', there, -, place⟩ := forest.paths top list below n listed
      cases attached.symm.trans there
      have children : s.below (some n) = some above.children := by
        rw [Nodes.below, attached, Option.map_some]
      obtain ⟨path, longer⟩ := ih below' children
      refine ⟨?_, List.cons_ne_nil _ _⟩
      have whole : idPath (above.id :: xs) = printed above.id.toInt ++ 46 :: idPath xs :=
        dotted_cons (by simpa using longer) _
      rw [path, Nodes.pathBelow, attached, Option.bind_some, place, whole]
      cases top with
      | none => rfl
      | some p => simp [Nodes.pathBelow, Function.comp_def]

/-! ## Ways -/

def Reads (w : List UInt8) (x : BitVec 32) : Prop :=
  w ≠ [] ∧ 46 ∉ w ∧ BitVec.ofInt 32 (atoi w) = x

theorem reads_printed (x : BitVec 32) : Reads (printed x.toInt) x := by
  refine ⟨printed_ne_nil _, printed_dot _, ?_⟩
  have above := x.le_toInt
  have below := x.toInt_lt
  rw [atoi_printed (by simpa using above) (by simpa using below)]
  exact BitVec.ofInt_toInt

theorem reads_map_printed (xs : List (BitVec 32)) :
    List.Forall₂ Reads (xs.map fun x => printed x.toInt) xs := by
  induction xs with
  | nil => exact .nil
  | cons x xs ih => exact .cons (reads_printed x) ih

theorem strtokR_reads {ws : List (List UInt8)} {xs : List (BitVec 32)} (some_word : ws ≠ [])
    (reads : List.Forall₂ Reads ws xs) : strtokR (dotted ws) = ws := by
  refine strtokR_dotted some_word fun w member => ?_
  obtain ⟨i, bound, at_⟩ := List.mem_iff_getElem.mp member
  obtain ⟨nonempty, plain, -⟩ := List.Forall₂.get reads bound (reads.length_eq ▸ bound)
  exact at_ ▸ ⟨nonempty, plain⟩

/-- Different ways have different paths. -/
theorem idPath_inj {xs ys : List (BitVec 32)} (some_id : xs ≠ []) (some_id' : ys ≠ [])
    (same : idPath xs = idPath ys) : xs = ys := by
  have texts : (xs.map fun x => printed x.toInt) = ys.map fun x => printed x.toInt := by
    rw [← strtokR_reads (by simpa using some_id) (reads_map_printed xs),
      ← strtokR_reads (by simpa using some_id') (reads_map_printed ys)]
    exact congrArg strtokR same
  refine List.map_injective_iff.mpr (fun x y same => ?_) texts
  rw [← (reads_printed x).2.2, same, (reads_printed y).2.2]

theorem Leads.length {ns : List Nat} {xs : List (BitVec 32)} (leads : Leads s list ns xs) :
    ns.length = xs.length := by
  induction leads with
  | nil => rfl
  | cons _ _ _ ih => rw [List.length_cons, List.length_cons, ih]

theorem Leads.front {ns later : List Nat} {xs : List (BitVec 32)}
    (leads : Leads s list (ns ++ later) xs) : ∃ ys, Leads s list ns ys := by
  induction ns generalizing list xs with
  | nil => exact ⟨[], .nil⟩
  | cons n ns ih =>
    cases leads with
    | cons listed here below =>
      obtain ⟨ys, way⟩ := ih below
      exact ⟨_, .cons listed here way⟩

theorem Leads.allocated {ns : List Nat} {xs : List (BitVec 32)}
    (leads : Leads s list (ns ++ [m]) xs) : ∃ node, s.node m = some node := by
  induction ns generalizing list xs with
  | nil =>
    cases leads with
    | cons _ here => exact ⟨_, here⟩
  | cons n ns ih =>
    cases leads with
    | cons _ _ below => exact ih below

/-- No node stands on a way twice. -/
theorem Forest.nodup (forest : Forest s) {ns : List Nat} {xs : List (BitVec 32)}
    (leads : Leads s s.toplevelList ns xs) : ns.Nodup := by
  induction ns using List.reverseRecOn generalizing xs with
  | nil => exact List.nodup_nil
  | append_singleton ns m ih =>
    obtain ⟨ys, way⟩ := leads.front
    refine List.nodup_append.mpr ⟨ih way, List.nodup_singleton m, ?_⟩
    rintro x early y last rfl
    obtain rfl := List.mem_singleton.mp last
    -- the two ways to the node would have the same path
    obtain ⟨a, b, rfl⟩ := List.append_of_mem early
    have split : a ++ x :: b ++ [x] = (a ++ [x]) ++ (b ++ [x]) := by simp
    obtain ⟨zs, way'⟩ := (split ▸ leads).front
    obtain ⟨node, here⟩ := way'.allocated
    have below : s.below none = some s.toplevelList := rfl
    obtain ⟨path', longer'⟩ := forest.path_eq way' below here
    obtain ⟨path, longer⟩ := forest.path_eq leads below here
    have same := idPath_inj longer longer' (Option.some.inj (path.symm.trans path'))
    have length := leads.length
    rw [same, ← way'.length] at length
    simp only [List.length_append, List.length_cons, List.length_nil] at length
    omega

/-! ## Runs -/

def Nodes.callsOf (s : Nodes κ) (ns : List Nat) : List (κ × Nat) :=
  ns.filterMap fun m => (s.node m).map fun node => (node.callback, m)

variable {ρ : Type} {invoke : κ → Nat → MonitoringSession ρ → MonitoringSession ρ}

def after (invoke : κ → Nat → MonitoringSession ρ → MonitoringSession ρ) (calls : List (κ × Nat))
    (session : MonitoringSession ρ) : MonitoringSession ρ :=
  calls.foldl (fun session call => invoke call.1 call.2 session) session

def next (s : Nodes κ) (p : Option Nat) (id : BitVec 32) : Option Nat :=
  (s.below p).bind fun list => findId s list id

theorem runLoop_found {p : Option Nat} {it : List UInt8} {tokens : List (List UInt8)}
    {x : BitVec 32} (reads : Reads it x) (found : next s p x = some m)
    (here : s.node m = some node) (session : MonitoringSession ρ) (calls : List (κ × Nat)) :
    runLoop invoke s p (it :: tokens) session calls =
      runLoop invoke s (some m) tokens (invoke node.callback m session)
        (calls ++ [(node.callback, m)]) := by
  obtain ⟨-, -, rfl⟩ := reads
  cases p with
  | none =>
    have found' : monitoringNodeFindToplevel s (BitVec.ofInt 32 (atoi it)) = some m := found
    simp only [runLoop, found', here, bind, Option.bind_some]
  | some p =>
    have found' : monitoringNodeFind s p (BitVec.ofInt 32 (atoi it)) = some m := by
      rw [← found, monitoringNodeFind, next, Nodes.below]
      cases s.node p <;> rfl
    simp only [runLoop, found', here, bind, Option.bind_some]

theorem runLoop_missing {p : Option Nat} {it : List UInt8} {tokens : List (List UInt8)}
    {x : BitVec 32} (reads : Reads it x) (missing : next s p x = none)
    (session : MonitoringSession ρ) (calls : List (κ × Nat)) :
    ∃ error, runLoop invoke s p (it :: tokens) session calls =
      some (failed error session calls) := by
  obtain ⟨-, -, rfl⟩ := reads
  cases p with
  | none =>
    have missing' : monitoringNodeFindToplevel s (BitVec.ofInt 32 (atoi it)) = none := missing
    exact ⟨_, by simp only [runLoop, missing']; rfl⟩
  | some p =>
    have missing' : monitoringNodeFind s p (BitVec.ofInt 32 (atoi it)) = none := by
      rw [← missing, monitoringNodeFind, next, Nodes.below]
      cases s.node p <;> rfl
    exact ⟨_, by simp only [runLoop, missing']; rfl⟩

theorem getLast?_cons_or (m : Nat) (ns : List Nat) (p : Option Nat) :
    (m :: ns).getLast?.or p = ns.getLast?.or (some m) := by
  cases ns with
  | nil => rfl
  | cons n ns => simp [List.getLast?_cons]

/-- The loop goes along a way and runs the callbacks on it. -/
theorem Forest.runLoop_leads (forest : Forest s) {ns : List Nat} {xs : List (BitVec 32)}
    {ws tokens : List (List UInt8)} (leads : Leads s list ns xs)
    (reads : List.Forall₂ Reads ws xs) {p : Option Nat} (below : s.below p = some list)
    (session : MonitoringSession ρ) (calls : List (κ × Nat)) :
    runLoop invoke s p (ws ++ tokens) session calls =
      runLoop invoke s (ns.getLast?.or p) tokens (after invoke (s.callsOf ns) session)
        (calls ++ s.callsOf ns) := by
  induction leads generalizing ws p session calls with
  | nil =>
    cases reads
    rw [List.nil_append, Nodes.callsOf, List.filterMap_nil, List.append_nil]
    rfl
  | @cons list ns xs m node listed here below' ih =>
    cases reads with
    | cons first rest =>
      have found : next s p node.id = some m := by
        rw [next, below, Option.bind_some]
        exact findId_listed (forest.siblings p list below) listed here
      have children : s.below (some m) = some node.children := by
        rw [Nodes.below, here, Option.map_some]
      have called : s.callsOf (m :: ns) = (node.callback, m) :: s.callsOf ns := by
        simp [Nodes.callsOf, here]
      rw [List.cons_append, runLoop_found first found here, ih rest children, called,
        getLast?_cons_or, List.append_assoc]
      rfl

/-- The longest beginning of the ids that is the way to a node; no node goes on from there. -/
theorem Forest.longest (forest : Forest s) (xs : List (BitVec 32)) {p : Option Nat}
    (below : s.below p = some list) :
    ∃ k ns, k ≤ xs.length ∧ Leads s list ns (xs.take k) ∧
      (∀ j ns', j ≤ xs.length → Leads s list ns' (xs.take j) → j ≤ k) ∧
      ∀ x, xs[k]? = some x → next s (ns.getLast?.or p) x = none := by
  induction xs generalizing list p with
  | nil => exact ⟨0, [], Nat.le_refl 0, .nil, fun j _ le _ => le, fun x none => by cases none⟩
  | cons x xs ih =>
    cases found : findId s list x with
    | none =>
      refine ⟨0, [], Nat.zero_le _, .nil, fun j ns' le leads => ?_, fun y first => ?_⟩
      · cases j with
        | zero => exact Nat.le_refl 0
        | succ j =>
          rw [List.take_succ_cons] at leads
          cases leads with
          | cons listed here => exact absurd rfl (findId_none found listed here)
      · obtain rfl : x = y := by simpa using first
        rw [List.getLast?_nil, Option.none_or, next, below, Option.bind_some, found]
    | some m =>
      obtain ⟨listed, node, here, rfl⟩ := findId_some found
      have children : s.below (some m) = some node.children := by
        rw [Nodes.below, here, Option.map_some]
      obtain ⟨k, ns, le, leads, longest, stops⟩ := ih children
      refine ⟨k + 1, m :: ns, Nat.succ_le_succ le, .cons listed here leads,
        fun j ns' le' leads' => ?_, fun y at_ => ?_⟩
      · cases j with
        | zero => exact Nat.zero_le _
        | succ j =>
          rw [List.take_succ_cons] at leads'
          generalize id_eq : node.id = id at leads'
          cases leads' with
          | @cons _ ns' _ m' node' listed' here' below' =>
            have same : m' = m := by
              refine forest.siblings p list below m' listed' m listed ?_
              rw [here, here', Option.map_some, Option.map_some, id_eq]
            subst same
            cases here.symm.trans here'
            exact Nat.succ_le_succ (longest j ns' (Nat.le_of_succ_le_succ le') below')
      · rw [getLast?_cons_or]
        exact stops y (by simpa using at_)

theorem monitoringSessionRun_eq {ws : List (List UInt8)} {xs : List (BitVec 32)}
    (some_word : ws ≠ []) (reads : List.Forall₂ Reads ws xs) {session : MonitoringSession ρ}
    (id : session.id = some (dotted ws)) :
    monitoringSessionRun invoke s session =
      runLoop invoke s none ws { session with state := MONITOR_STATE_OK } [] := by
  rw [monitoringSessionRun]
  simp only [id, strtokR_reads some_word reads]

/-- What is promised of the nodes that have been added. -/
structure Follows (s : Nodes κ) : Prop where
  placed : ∀ (m : Nat) (node : MonitoringNode κ), s.node m = some node → node.path.isSome →
    ∃ ns xs, Leads s s.toplevelList (ns ++ [m]) xs
  runs : ∀ {ρ : Type} (invoke : κ → Nat → MonitoringSession ρ → MonitoringSession ρ)
    (session : MonitoringSession ρ) (ns : List Nat) (m : Nat) (xs : List (BitVec 32))
    (node : MonitoringNode κ), Leads s s.toplevelList (ns ++ [m]) xs → s.node m = some node →
    session.id = node.path → (ns ++ [m]).Nodup ∧
      let calls := s.callsOf (ns ++ [m])
      let left := after invoke calls { session with state := MONITOR_STATE_OK }
      monitoringSessionRun invoke s session =
        some { returned := left.state, session := left, calls }
  fails : ∀ {ρ : Type} (invoke : κ → Nat → MonitoringSession ρ → MonitoringSession ρ)
    (session : MonitoringSession ρ) (ws : List (List UInt8)) (xs : List (BitVec 32)), ws ≠ [] →
    List.Forall₂ Reads ws xs → (∀ ns, ¬ Leads s s.toplevelList ns xs) →
    session.id = some (dotted ws) →
    ∃ k ns error, k < xs.length ∧ Leads s s.toplevelList ns (xs.take k) ∧
      (∀ j ns', j ≤ xs.length → Leads s s.toplevelList ns' (xs.take j) → j ≤ k) ∧
      let calls := s.callsOf ns
      let left := after invoke calls { session with state := MONITOR_STATE_OK }
      monitoringSessionRun invoke s session = some {
        returned := MONITOR_STATE_ERROR
        session := { left with state := MONITOR_STATE_ERROR, error := some error }
        calls }
  rejectsToplevel : ∀ (m : Nat) (node : MonitoringNode κ), s.node m = some node →
    (∃ x ∈ s.toplevelList, (s.node x).map (·.id) = some node.id) →
    monitoringNodeAddToplevel (some m) s = some (1, s)
  rejects : ∀ (p m : Nat) (above node : MonitoringNode κ), s.node p = some above →
    s.node m = some node → (∃ x ∈ above.children, (s.node x).map (·.id) = some node.id) →
    monitoringNodeAdd (some p) (some m) s = some (1, s)

theorem findId_isSome {id : BitVec 32}
    (listed : ∃ x ∈ list, (s.node x).map (·.id) = some id) : (findId s list id).isSome := by
  obtain ⟨x, listed, same⟩ := listed
  obtain ⟨node, here, rfl⟩ := Option.map_eq_some_iff.mp same
  rw [Option.isSome_iff_ne_none]
  exact fun missing => findId_none missing listed here rfl

theorem Forest.follows (forest : Forest s) : Follows s := by
  have top : s.below none = some s.toplevelList := rfl
  constructor
  case placed => exact forest.placed
  case runs =>
    intro ρ invoke session ns m xs node leads here id
    obtain ⟨path, longer⟩ := forest.path_eq leads top here
    have reads := reads_map_printed xs
    have some_word : (xs.map fun x => printed x.toInt) ≠ [] := by simpa using longer
    have ran : runLoop invoke s none ((xs.map fun x => printed x.toInt) ++ [])
        { session with state := MONITOR_STATE_OK } [] = _ :=
      forest.runLoop_leads leads reads top _ _
    rw [List.append_nil, List.nil_append] at ran
    refine ⟨forest.nodup leads, ?_⟩
    dsimp only
    rw [monitoringSessionRun_eq some_word reads (id.trans path), ran, runLoop]
  case fails =>
    intro ρ invoke session ws xs some_word reads unplaced id
    obtain ⟨k, ns, le, leads, longest, stops⟩ := forest.longest xs top
    -- not all ids lead to a node, so one is left at which the loop stops
    have short : k < xs.length := by
      refine Nat.lt_of_le_of_ne le fun whole => unplaced ns ?_
      rwa [whole, List.take_length] at leads
    have short' : k < ws.length := reads.length_eq ▸ short
    let left := after invoke (s.callsOf ns) { session with state := MONITOR_STATE_OK }
    obtain ⟨error, failed⟩ : ∃ error, runLoop invoke s (ns.getLast?.or none)
        (ws[k] :: ws.drop (k + 1)) left (s.callsOf ns) = some (failed error left (s.callsOf ns)) :=
      runLoop_missing (reads.get short' short) (stops _ (List.getElem?_eq_getElem short)) _ _
    refine ⟨k, ns, error, short, leads, longest, ?_⟩
    dsimp only
    have split : ws = ws.take k ++ (ws[k] :: ws.drop (k + 1)) := by
      rw [← List.drop_eq_getElem_cons short', List.take_append_drop]
    rw [monitoringSessionRun_eq some_word reads id]
    conv_lhs => rw [split]
    rw [forest.runLoop_leads leads (List.forall₂_take k reads) top, List.nil_append]
    exact failed
  case rejectsToplevel =>
    intro m node here taken
    simp only [monitoringNodeAddToplevel, here, bind, Option.bind_some, pure]
    exact if_pos (findId_isSome taken)
  case rejects =>
    intro p m above node attached here taken
    have found : (monitoringNodeFind s p node.id).isSome := by
      rw [monitoringNodeFind, attached]
      exact findId_isSome taken
    simp only [monitoringNodeAdd, here, bind, Option.bind_some, pure]
    exact if_pos found

/-- In every forest that is built top-down, a session whose id is the path of a node runs the
    callbacks from the root down to it, and other paths end with an error. -/
theorem sessions_follow_paths {as : List (BuildAction κ)} (run : Run Build Nodes.start as s) :
    Follows s := by
  have forest : Forest s :=
    run.state_invariant start_forest fun _ _ _ forest step => forest.build step
  exact forest.follows

end Forest

/-- A node 2 below a node 1: its session runs the callback of 1, then that of 2. -/
theorem sessions_follow_paths_two :
    ∃ s : Nodes Char, Run Build Nodes.start
        [.new 0 1 'a', .addToplevel 0, .new 1 2 'b', .add 0 1] s ∧ Follows s ∧
      ∀ (invoke : Char → Nat → MonitoringSession Nat → MonitoringSession Nat),
        (monitoringSessionRun invoke s ⟨some (text "1.2"), 0, none, 0⟩).map (·.calls) =
          some [('a', 0), ('b', 1)] := by
  have parent : Run Build Nodes.start [.new 0 1 'a'] _ := .single (.new rfl)
  have placed := parent.snoc (l := .addToplevel 0) (.addToplevel rfl (.inl rfl) rfl)
  have child := placed.snoc (l := .new 1 2 'b') (.new rfl)
  have attached := child.snoc (l := .add 0 1) (.add rfl rfl rfl (.inl rfl) rfl)
  obtain ⟨s, attached, first, second, top⟩ : ∃ s, Run Build Nodes.start
      [.new 0 1 'a', .addToplevel 0, .new 1 2 'b', .add 0 1] s ∧
      s.node 0 = some ⟨1, 'a', some (text "1"), [1]⟩ ∧
      s.node 1 = some ⟨2, 'b', some (text "1.2"), []⟩ ∧ s.toplevelList = [0] :=
    ⟨_, attached, rfl, rfl, rfl⟩
  have follows := sessions_follow_paths attached
  refine ⟨s, attached, follows, fun invoke => ?_⟩
  have leads : Leads s s.toplevelList ([0] ++ [1]) [1, 2] :=
    .cons (by simp [top]) first (.cons (List.mem_singleton_self 1) second .nil)
  obtain ⟨-, ran⟩ := follows.runs invoke ⟨some (text "1.2"), 0, none, 0⟩ [0] 1 _ _ leads second rfl
  rw [ran]
  simp [Nodes.callsOf, first, second]

end Cheops.Monitoring
