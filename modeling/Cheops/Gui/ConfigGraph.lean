import Cheops.Canvas.MergeMany
import Cheops.Gui.Config

/-! # Groups and links in the configuration file (`gui-config.c`)

`write_config_file` gives each group of merged hosts a number, and writes the addresses of its hosts
under that number; then it writes the addresses of the two ends of each link.  `read_config_file`
merges the hosts that it finds there and links them again.

The number of a host in its group is not counted up: each host of a group is written over the one
before it (`stored_secondary`).
-/

namespace Cheops.Gui.ConfigGraph

open Cheops.Lib Cheops.Canvas
open Config (Section ip2str str2ip)

/-! ## Keys -/

inductive Key where
  | primary (j : Nat)
  | secondary (j counter : Nat)
  | ip1 (j : Nat)
  | ip2 (j : Nat)
deriving DecidableEq, Repr

def Key.text : Key → List UInt8
  | primary j => Lib.text "merge_" ++ (decimal j ++ Lib.text "_primary")
  | secondary j counter =>
    Lib.text "merge_" ++ (decimal j ++ (Lib.text "_secondary_" ++ decimal counter))
  | ip1 j => Lib.text "page_object_link_" ++ (decimal j ++ Lib.text "_ip1")
  | ip2 j => Lib.text "page_object_link_" ++ (decimal j ++ Lib.text "_ip2")

/-! ## Writing -/

structure View where
  page : NetPage
  ip : Nat → BitVec 32

def groups (fuel : Nat) (np : NetPage) : List Nat → Except Fault (List (List Nat))
  | [] => .ok []
  | po :: pos => do
    let o ← np.object po
    if o.merge ≠ none ∧ o.mergePrimary = some po then
      let hosts ← mergeChain np fuel (some po)
      let rest ← groups fuel np pos
      return hosts :: rest
    else groups fuel np pos

def linksOf (np : NetPage) : List Nat → Except Fault (List PageObjectLink)
  | [] => .ok []
  | pol :: pols => do
    let l ← np.link pol
    let rest ← linksOf np pols
    return l :: rest

def links (np : NetPage) : List Nat → Except Fault (List PageObjectLink)
  | [] => .ok []
  | po :: pos => do
    let here ← linksOf np (← np.object po).links
    let rest ← links np pos
    return here ++ rest

/-- What is written for the group with the number `j`: `counter` stays 0. -/
def writeGroup (ip : Nat → BitVec 32) (j : Nat) (hosts : List Nat) : List (Key × List UInt8) :=
  let counter := 0
  hosts.map (fun pri => (Key.secondary j counter, ip2str (ip pri))) ++
    hosts.head?.toList.map fun po => (Key.primary j, ip2str (ip po))

def writeLink (ip : Nat → BitVec 32) (j : Nat) (pol : PageObjectLink) : List (Key × List UInt8) :=
  [(Key.ip1 j, ip2str (ip pol.po1)), (Key.ip2 j, ip2str (ip pol.po2))]

def stored (c : Section) (ip : Nat → BitVec 32) (merged : List (List Nat))
    (pols : List PageObjectLink) : Section :=
  written c ((numbered (writeGroup ip) 0 merged ++
    numbered (writeLink ip) 0 pols).map (Prod.map Key.text id))

/-- What `write_config_file` makes of the section `c` of a page, in which the hosts are already. -/
def writeConfigFile (fuel : Nat) (np : View) (c : Section) : Except Fault Section := do
  let merged ← groups fuel np.page np.page.pageObjects
  let pols ← links np.page np.page.pageObjects
  return stored c np.ip merged pols

/-! ## Reading -/

/-- `page_object_get_by_ip`. -/
def View.getByIp (np : View) (ip : BitVec 32) : Option Nat :=
  np.page.pageObjects.find? (np.ip · = ip)

def View.host (np : View) (c : Section) (key : Key) : Option Nat :=
  (c key.text).bind fun string => (str2ip string).bind np.getByIp

/-- The calls that `read_config_file` makes for groups and links. -/
inductive Call where
  | merge (primary secondary : Nat)
  | map (po1 po2 : Nat)
deriving DecidableEq, Repr

/-- The loop over the hosts of a group, for at most `turns` turns. -/
def readSecondaries (np : View) (c : Section) (j primary : Nat) : Nat → Nat → Option (List Call)
  | 0, _ => none
  | turns + 1, jj =>
    match np.host c (.secondary j jj) with
    | none => some []
    | some secondary =>
      (readSecondaries np c j primary turns (jj + 1)).map (.merge primary secondary :: ·)

def readMerges (np : View) (c : Section) (secondaryTurns : Nat) : Nat → Nat → Option (List Call)
  | 0, _ => none
  | turns + 1, j =>
    match np.host c (.primary j) with
    | none => some []
    | some primary => do
      let calls ← readSecondaries np c j primary secondaryTurns 0
      let rest ← readMerges np c secondaryTurns turns (j + 1)
      return calls ++ rest

def readLinks (np : View) (c : Section) : Nat → Nat → Option (List Call)
  | 0, _ => none
  | turns + 1, j =>
    match c (Key.ip1 j).text, c (Key.ip2 j).text with
    | some _, some _ =>
      let call :=
        match np.host c (.ip1 j), np.host c (.ip2 j) with
        | some po1, some po2 => [.map po1 po2]
        | _, _ => []
      (readLinks np c turns (j + 1)).map (call ++ ·)
    | _, _ => some []

/-- The calls that `read_config_file` makes on a page whose hosts have been restored. -/
def readConfigFile (turns : Nat) (np : View) (c : Section) : Option (List Call) := do
  let merges ← readMerges np c turns turns 0
  let maps ← readLinks np c turns 0
  return merges ++ maps

/-- A call, where `malloc` returns a block that is not in use. -/
def CallStep (fuel : Nat) (np : NetPage) (call : Call) (np' : NetPage) : Prop :=
  match call with
  | .merge primary secondary => pageObjectMerge fuel primary secondary np = .ok np'
  | .map po1 po2 => ∃ pol, (Op.map po1 po2 pol).Permitted np ∧
      netPageMapPageObjects po1 po2 pol np = .ok np'

/-! ## Keys are different -/

theorem stop_of_head {c : UInt8} {cs : List UInt8} (other : 10 ≤ digitVal c) :
    NoDigit 10 (c :: cs) := by
  intro d first
  cases first
  exact other

/-- What stands behind the number of a group, and behind the number of a link. -/
theorem primary_ne_secondary (rest : List UInt8) :
    Lib.text "_primary" ≠ Lib.text "_secondary_" ++ rest := by
  intro same
  have front := congrArg (List.take 2) same
  rw [List.take_append_of_le_length (by decide)] at front
  exact absurd front (by decide)

theorem merge_ne_link (rest rest' : List UInt8) :
    Lib.text "merge_" ++ rest ≠ Lib.text "page_object_link_" ++ rest' := by
  intro same
  have front := congrArg (List.take 1) same
  rw [List.take_append_of_le_length (by decide), List.take_append_of_le_length (by decide)] at front
  exact absurd front (by decide)

theorem Key.text_injective : Function.Injective Key.text := by
  have primary_stop : NoDigit 10 (Lib.text "_primary") := stop_of_head (by decide)
  have secondary_stop (rest : List UInt8) : NoDigit 10 (Lib.text "_secondary_" ++ rest) :=
    stop_of_head (by decide)
  have ip1_stop : NoDigit 10 (Lib.text "_ip1") := stop_of_head (by decide)
  have ip2_stop : NoDigit 10 (Lib.text "_ip2") := stop_of_head (by decide)
  have nil_stop : NoDigit 10 [] := fun _ none => by cases none
  intro k k' same
  cases k with
  | primary j =>
    cases k' with
    | primary j' =>
      rw [(decimal_append_inj primary_stop primary_stop (List.append_cancel_left same)).1]
    | secondary j' counter' =>
      have rest := (decimal_append_inj primary_stop (secondary_stop _)
        (List.append_cancel_left same)).2
      exact absurd rest (primary_ne_secondary _)
    | ip1 j' => exact absurd same (merge_ne_link _ _)
    | ip2 j' => exact absurd same (merge_ne_link _ _)
  | secondary j counter =>
    cases k' with
    | primary j' =>
      have rest := (decimal_append_inj (secondary_stop _) primary_stop
        (List.append_cancel_left same)).2
      exact absurd rest.symm (primary_ne_secondary _)
    | secondary j' counter' =>
      obtain ⟨rfl, rest⟩ := decimal_append_inj (secondary_stop _) (secondary_stop _)
        (List.append_cancel_left same)
      have counters := List.append_cancel_left rest
      rw [← List.append_nil (decimal counter), ← List.append_nil (decimal counter')] at counters
      rw [(decimal_append_inj nil_stop nil_stop counters).1]
    | ip1 j' => exact absurd same (merge_ne_link _ _)
    | ip2 j' => exact absurd same (merge_ne_link _ _)
  | ip1 j =>
    cases k' with
    | primary j' => exact absurd same.symm (merge_ne_link _ _)
    | secondary j' counter' => exact absurd same.symm (merge_ne_link _ _)
    | ip1 j' => rw [(decimal_append_inj ip1_stop ip1_stop (List.append_cancel_left same)).1]
    | ip2 j' =>
      have rest := (decimal_append_inj ip1_stop ip2_stop (List.append_cancel_left same)).2
      exact absurd rest (by decide)
  | ip2 j =>
    cases k' with
    | primary j' => exact absurd same.symm (merge_ne_link _ _)
    | secondary j' counter' => exact absurd same.symm (merge_ne_link _ _)
    | ip1 j' =>
      have rest := (decimal_append_inj ip2_stop ip1_stop (List.append_cancel_left same)).2
      exact absurd rest (by decide)
    | ip2 j' => rw [(decimal_append_inj ip2_stop ip2_stop (List.append_cancel_left same)).1]

/-- `page_object_%d…` is no key of a link: a number stands where `link` stands. -/
theorem host_ne_link (j : Nat) (rest rest' : List UInt8) :
    Lib.text "page_object_" ++ (decimal j ++ rest) ≠ Lib.text "page_object_link_" ++ rest' := by
  intro same
  have split : Lib.text "page_object_link_" = Lib.text "page_object_" ++ Lib.text "link_" := by
    decide
  rw [split, List.append_assoc] at same
  have tails := List.append_cancel_left same
  cases digits : decimal j with
  | nil => exact decimal_ne_nil digits
  | cons c cs =>
    rw [digits] at tails
    have digit := decimal_digits j c (digits ▸ .head _)
    obtain rfl : c = 108 := (List.cons.inj tails).1
    exact absurd digit (by decide)

theorem host_ne_merge (rest rest' : List UInt8) :
    Lib.text "page_object_" ++ rest ≠ Lib.text "merge_" ++ rest' := by
  intro same
  have front := congrArg (List.take 1) same
  rw [List.take_append_of_le_length (by decide), List.take_append_of_le_length (by decide)] at front
  exact absurd front (by decide)

/-- The keys of the hosts are none of these. -/
theorem Key.not_host (key : Key) (key' : Config.Key) : key'.text ≠ key.text := by
  cases key' with
  | host j f =>
    cases key with
    | primary j' => exact host_ne_merge _ _
    | secondary j' counter => exact host_ne_merge _ _
    | ip1 j' => exact host_ne_link _ _ _
    | ip2 j' => exact host_ne_link _ _ _
  | port j portCount f =>
    cases key with
    | primary j' => exact host_ne_merge _ _
    | secondary j' counter => exact host_ne_merge _ _
    | ip1 j' => exact host_ne_link _ _ _
    | ip2 j' => exact host_ne_link _ _ _

/-! ## What is read of what has been written -/

def Key.group : Key → Option Nat
  | primary j => some j
  | secondary j _ => some j
  | ip1 _ => none
  | ip2 _ => none

def Key.link : Key → Option Nat
  | primary _ => none
  | secondary _ _ => none
  | ip1 j => some j
  | ip2 j => some j

section Stored

variable {c : Section} {ip : Nat → BitVec 32} {merged : List (List Nat)}
  {pols : List PageObjectLink} {j : Nat} {key : Key}

theorem writeGroup_group (j : Nat) (hosts : List Nat) :
    ∀ write ∈ writeGroup ip j hosts, write.1.group = some j ∧ write.1.link = none := by
  intro write member
  rcases List.mem_append.mp member with secondary | primary
  · obtain ⟨pri, -, rfl⟩ := List.mem_map.mp secondary
    exact ⟨rfl, rfl⟩
  · obtain ⟨po, -, rfl⟩ := List.mem_map.mp primary
    exact ⟨rfl, rfl⟩

theorem writeLink_link (j : Nat) (pol : PageObjectLink) :
    ∀ write ∈ writeLink ip j pol, write.1.link = some j ∧ write.1.group = none := by
  intro write member
  simp only [writeLink, List.mem_cons, List.not_mem_nil, or_false] at member
  rcases member with rfl | rfl
  · exact ⟨rfl, rfl⟩
  · exact ⟨rfl, rfl⟩

theorem stored_key (empty : ∀ key : Key, c key.text = none) :
    stored c ip merged pols key.text = written (fun _ => none)
      (numbered (writeGroup ip) 0 merged ++ numbered (writeLink ip) 0 pols) key := by
  rw [stored, written_map Key.text_injective]
  exact written_congr (empty key)

/-- The links leave the keys of groups alone. -/
theorem stored_group (empty : ∀ key : Key, c key.text = none) (group : key.group = some j) :
    stored c ip merged pols key.text =
      (merged[j]?).bind fun hosts => written (fun _ => none) (writeGroup ip j hosts) key := by
  have links : ∀ write ∈ numbered (writeLink ip) 0 pols, write.1 ≠ key := by
    rintro write member rfl
    obtain ⟨i, pol, written⟩ := mem_numbered member
    exact absurd ((writeLink_link i pol write written).2.symm.trans group) nofun
  have place : key.group = some (0 + j) := by rw [group, Nat.zero_add]
  have own : ∀ n hosts, ∀ write ∈ writeGroup ip n hosts, write.1.group = some n :=
    fun n hosts write member => (writeGroup_group n hosts write member).1
  rw [stored_key empty, written_append, written_of_ne links, written_numbered own place,
    Nat.zero_add]
  cases merged[j]? <;> rfl

theorem stored_primary (empty : ∀ key : Key, c key.text = none) :
    stored c ip merged pols (Key.primary j).text =
      (merged[j]?).bind fun hosts => hosts.head?.map fun po => ip2str (ip po) := by
  rw [stored_group empty rfl]
  congr 1
  funext hosts
  have secondaries : ∀ write ∈ hosts.map fun pri => (Key.secondary j 0, ip2str (ip pri)),
      write.1 ≠ Key.primary j := by
    intro write member
    obtain ⟨pri, -, rfl⟩ := List.mem_map.mp member
    exact fun same => by cases same
  rw [writeGroup, written_append]
  cases hosts with
  | nil => rfl
  | cons po hosts =>
    change Function.update _ (Key.primary j) _ (Key.primary j) = _
    rw [Function.update_self]
    rfl

/-- Only the last host of a group is there. -/
theorem stored_secondary (empty : ∀ key : Key, c key.text = none) (counter : Nat) :
    stored c ip merged pols (Key.secondary j counter).text =
      if counter = 0 then
        (merged[j]?).bind fun hosts => hosts.getLast?.map fun pri => ip2str (ip pri)
      else none := by
  rw [stored_group empty rfl]
  have primary (hosts : List Nat) :
      ∀ write ∈ hosts.head?.toList.map fun po => (Key.primary j, ip2str (ip po)),
        write.1 ≠ Key.secondary j counter := by
    intro write member
    obtain ⟨po, -, rfl⟩ := List.mem_map.mp member
    exact fun same => by cases same
  by_cases first : counter = 0
  case pos =>
    rw [if_pos first]
    congr 1
    funext hosts
    rw [writeGroup, written_append, written_of_ne (primary hosts), first, written_last,
      Option.or_none]
  case neg =>
    have secondaries (hosts : List Nat) :
        ∀ write ∈ hosts.map fun pri => (Key.secondary j 0, ip2str (ip pri)),
          write.1 ≠ Key.secondary j counter := by
      intro write member
      obtain ⟨pri, -, rfl⟩ := List.mem_map.mp member
      exact fun same => first (Key.secondary.inj same).2.symm
    rw [if_neg first]
    cases merged[j]? with
    | none => rfl
    | some hosts =>
      rw [Option.bind_some, writeGroup, written_append, written_of_ne (primary hosts),
        written_of_ne (secondaries hosts)]

/-- The groups leave the keys of links alone. -/
theorem stored_link (empty : ∀ key : Key, c key.text = none) (link : key.link = some j) :
    stored c ip merged pols key.text =
      (pols[j]?).bind fun pol => written (fun _ => none) (writeLink ip j pol) key := by
  have groups : written (fun _ => none) (numbered (writeGroup ip) 0 merged) key = none := by
    refine written_of_ne ?_
    rintro write member rfl
    obtain ⟨i, hosts, written⟩ := mem_numbered member
    exact absurd ((writeGroup_group i hosts write written).2.symm.trans link) nofun
  have place : key.link = some (0 + j) := by rw [link, Nat.zero_add]
  have own : ∀ n pol, ∀ write ∈ writeLink ip n pol, write.1.link = some n :=
    fun n pol write member => (writeLink_link n pol write member).1
  rw [stored_key empty, written_append, written_numbered own place, Nat.zero_add]
  cases pols[j]? with
  | none => exact groups
  | some pol => exact written_congr groups

theorem stored_ip1 (empty : ∀ key : Key, c key.text = none) :
    stored c ip merged pols (Key.ip1 j).text = (pols[j]?).map fun pol => ip2str (ip pol.po1) := by
  rw [stored_link empty rfl]
  cases pols[j]? with
  | none => rfl
  | some pol => simp [writeLink]

theorem stored_ip2 (empty : ∀ key : Key, c key.text = none) :
    stored c ip merged pols (Key.ip2 j).text = (pols[j]?).map fun pol => ip2str (ip pol.po2) := by
  rw [stored_link empty rfl]
  cases pols[j]? with
  | none => rfl
  | some pol => simp [writeLink]

/-- The hosts are what they were. -/
theorem stored_host (key : Config.Key) : stored c ip merged pols key.text = c key.text := by
  refine written_of_ne fun write member => ?_
  obtain ⟨write, -, rfl⟩ := List.mem_map.mp member
  exact (write.1.not_host key).symm

end Stored

section Read

variable {np : View} {c : Section} {j : Nat} {turns : Nat} {key : Key} {h : Nat}

theorem host_stored {ip : BitVec 32} (stored : c key.text = some (ip2str ip)) :
    np.host c key = np.getByIp ip := by
  rw [View.host, stored, Option.bind_some, Config.str2ip_ip2str, Option.bind_some]

theorem host_missing (missing : c key.text = none) : np.host c key = none := by
  rw [View.host, missing, Option.bind_none]

theorem host_text (found : np.host c key = some h) : ∃ string, c key.text = some string := by
  obtain ⟨string, text, -⟩ := Option.bind_eq_some_iff.mp found
  exact ⟨string, text⟩

/-- Each group is read with one host besides its primary. -/
theorem readMerges_eq {calls : List (Nat × Nat)}
    (primary : ∀ i, np.host c (.primary (j + i)) = calls[i]?.map Prod.fst)
    (secondary : ∀ i, np.host c (.secondary (j + i) 0) = calls[i]?.map Prod.snd)
    (others : ∀ i, np.host c (.secondary (j + i) 1) = none) (enough : calls.length < turns)
    (secondaryTurns : Nat) :
    readMerges np c (secondaryTurns + 2) turns j =
      some (calls.map fun call => .merge call.1 call.2) := by
  induction calls generalizing j turns with
  | nil =>
    obtain ⟨turns, rfl⟩ := Nat.exists_eq_add_one_of_ne_zero (Nat.ne_zero_of_lt enough)
    rw [readMerges, show np.host c (.primary j) = none from primary 0]
    rfl
  | cons call calls ih =>
    obtain ⟨turns, rfl⟩ := Nat.exists_eq_add_one_of_ne_zero (Nat.ne_zero_of_lt enough)
    have shift (i : Nat) : j + 1 + i = j + (i + 1) := by omega
    have rest := ih (j := j + 1) (fun i => by rw [shift, primary]; rfl)
      (fun i => by rw [shift, secondary]; rfl) (fun i => by rw [shift, others])
      (Nat.lt_of_succ_lt_succ enough)
    have here : readSecondaries np c j call.1 (secondaryTurns + 2) 0 =
        some [.merge call.1 call.2] := by
      rw [readSecondaries, show np.host c (.secondary j 0) = some call.2 from secondary 0]
      dsimp only
      rw [readSecondaries, show np.host c (.secondary j (0 + 1)) = none from others 0]
      rfl
    rw [readMerges, show np.host c (.primary j) = some call.1 from primary 0]
    dsimp only
    rw [here, rest]
    rfl

theorem readLinks_eq {calls : List (Nat × Nat)}
    (ip1 : ∀ i, np.host c (.ip1 (j + i)) = calls[i]?.map Prod.fst)
    (ip2 : ∀ i, np.host c (.ip2 (j + i)) = calls[i]?.map Prod.snd)
    (ended : c (Key.ip1 (j + calls.length)).text = none) (enough : calls.length < turns) :
    readLinks np c turns j = some (calls.map fun call => .map call.1 call.2) := by
  induction calls generalizing j turns with
  | nil =>
    obtain ⟨turns, rfl⟩ := Nat.exists_eq_add_one_of_ne_zero (Nat.ne_zero_of_lt enough)
    rw [readLinks, show c (Key.ip1 j).text = none from ended]
    rfl
  | cons call calls ih =>
    obtain ⟨turns, rfl⟩ := Nat.exists_eq_add_one_of_ne_zero (Nat.ne_zero_of_lt enough)
    have shift (i : Nat) : j + 1 + i = j + (i + 1) := by omega
    have rest := ih (j := j + 1) (fun i => by rw [shift, ip1]; rfl)
      (fun i => by rw [shift, ip2]; rfl) (by rw [shift]; exact ended)
      (Nat.lt_of_succ_lt_succ enough)
    have host1 : np.host c (.ip1 j) = some call.1 := ip1 0
    have host2 : np.host c (.ip2 j) = some call.2 := ip2 0
    obtain ⟨string1, text1⟩ := host_text host1
    obtain ⟨string2, text2⟩ := host_text host2
    rw [readLinks, text1, text2]
    dsimp only
    rw [host1, host2, rest]
    rfl

end Read

/-! ## What is written of a page -/

section Write

variable {np : NetPage} {s : Shape} {fuel : Nat} {hosts : List Nat}

def Leads (s : Shape) (p : Nat) : Prop := s.own p = p ∧ s.members p ≠ []

instance (s : Shape) : DecidablePred (Leads s) := fun _ => inferInstanceAs (Decidable (_ ∧ _))

theorem leads_iff (formed : Formed np s) {p : Nat} {o : PageObject}
    (object : np.objects p = some o) :
    o.merge ≠ none ∧ o.mergePrimary = some p ↔ Leads s p := by
  have has := formed.has
  have listed := has.mem object
  have chain (own : s.own p = p) : Seg np.objects PageObject.merge o.merge (s.members p) none :=
    formed.whole p listed own ▸ has.chain p o object own
  constructor
  · rintro ⟨merge, primary⟩
    have own : s.own p = p := by rw [← has.owner p o object, primary, Option.getD_some]
    refine ⟨own, fun none => merge ?_⟩
    have seg := chain own
    rw [none] at seg
    exact seg
  · rintro ⟨own, members⟩
    have merge : o.merge ≠ none := fun none => members (none ▸ chain own).nil_of_none.1
    exact ⟨merge, has.primary object own merge⟩

theorem groups_eq (formed : Formed np s) (enough : np.pageObjects.length ≤ fuel)
    (listed : ∀ p ∈ hosts, p ∈ np.pageObjects) :
    groups fuel np hosts =
      .ok ((hosts.filter fun p => Leads s p).map fun p => p :: s.members p) := by
  induction hosts with
  | nil => rfl
  | cons p hosts ih =>
    obtain ⟨here, rest⟩ := List.forall_mem_cons.mp listed
    obtain ⟨o, object⟩ := (formed.has.alive p).mp here
    have leads := leads_iff formed object
    rw [groups, NetPage.object, object]
    change (if o.merge ≠ none ∧ o.mergePrimary = some p then _ else _) = _
    by_cases first : Leads s p
    case pos =>
      have own := first.1
      have seg : Seg np.objects PageObject.merge (some p) (p :: s.members p) none :=
        ⟨rfl, o, object, formed.whole p here own ▸ formed.has.chain p o object own⟩
      have short : (p :: s.members p).length ≤ fuel := by
        refine Nat.le_trans (List.subperm_of_subset seg.nodup fun h member => ?_).length_le enough
        rcases List.mem_cons.mp member with rfl | member
        · exact here
        · exact formed.has.members_alive here own h member
      rw [if_pos (leads.mpr first), mergeChain_eq seg short, ih rest, List.filter_cons_of_pos]
      · rfl
      · exact decide_eq_true first
    case neg =>
      rw [if_neg (mt leads.mp first), ih rest, List.filter_cons_of_neg]
      rwa [decide_eq_true_eq]

theorem linksOf_eq {pols : List Nat} (alive : ∀ pol ∈ pols, ∃ l, np.links pol = some l) :
    ∃ ls, linksOf np pols = .ok ls ∧ ∀ l, l ∈ ls ↔ ∃ pol ∈ pols, np.links pol = some l := by
  induction pols with
  | nil => exact ⟨[], rfl, by simp⟩
  | cons pol pols ih =>
    obtain ⟨⟨l, link⟩, rest⟩ := List.forall_mem_cons.mp alive
    obtain ⟨ls, run, members⟩ := ih rest
    refine ⟨l :: ls, ?_, fun l' => ?_⟩
    · rw [linksOf, NetPage.link, link]
      change (linksOf np pols >>= _) = _
      rw [run]
      rfl
    · rw [List.mem_cons, members, List.exists_mem_cons_iff, link, Option.some_inj, eq_comm]

theorem links_eq (formed : Formed np s) (listed : ∀ h ∈ hosts, h ∈ np.pageObjects) :
    ∃ ls, links np hosts = .ok ls ∧ ∀ l, l ∈ ls ↔
      ∃ h ∈ hosts, ∃ o, np.objects h = some o ∧ ∃ pol ∈ o.links, np.links pol = some l := by
  induction hosts with
  | nil => exact ⟨[], rfl, by simp⟩
  | cons h hosts ih =>
    obtain ⟨here, rest⟩ := List.forall_mem_cons.mp listed
    obtain ⟨o, object⟩ := (formed.has.alive h).mp here
    obtain ⟨ls, run, members⟩ := ih rest
    have alive : ∀ pol ∈ o.links, ∃ l, np.links pol = some l := by
      intro pol member
      obtain ⟨l, link, -⟩ := formed.has.link_of_mem object member
      exact ⟨l, link⟩
    obtain ⟨ls', run', members'⟩ := linksOf_eq alive
    refine ⟨ls' ++ ls, ?_, fun l => ?_⟩
    · rw [links, NetPage.object, object]
      change (linksOf np o.links >>= _) = _
      rw [run']
      change (links np hosts >>= _) = _
      rw [run]
      rfl
    · rw [List.mem_append, members, members', List.exists_mem_cons_iff, object]
      simp

/-- The ends of the links of the page, and no others, are written. -/
theorem links_realEnds (formed : Formed np s) :
    ∃ ls, links np np.pageObjects = .ok ls ∧
      ∀ ends, ends ∈ ls.map (fun l => (l.po1, l.po2)) ↔ ∃ pol, np.realEnds pol = some ends := by
  obtain ⟨ls, run, members⟩ := links_eq formed fun _ member => member
  refine ⟨ls, run, fun ends => ?_⟩
  rw [List.mem_map]
  constructor
  · rintro ⟨l, member, rfl⟩
    obtain ⟨-, -, -, -, pol, -, link⟩ := (members l).mp member
    exact ⟨pol, realEnds_of_link link⟩
  · rintro ⟨pol, ends_eq⟩
    obtain ⟨l, link, rfl⟩ := Option.map_eq_some_iff.mp ends_eq
    obtain ⟨listed1, -⟩ := formed.link pol l link
    have owner := formed.has.own_mem listed1
    obtain ⟨o, object⟩ := (formed.has.alive _).mp owner
    have listed := mem_links formed.has.listed object link (.inl rfl)
    exact ⟨l, (members l).mpr ⟨_, owner, o, object, pol, listed, link⟩, rfl⟩

end Write

end Cheops.Gui.ConfigGraph
