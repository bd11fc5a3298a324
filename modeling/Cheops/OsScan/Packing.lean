import Cheops.OsScan.NmapXml
import Cheops.OsScan.Bounds

/-! # OS scans: how far a reply is written (`agent-osscan.c`)

`send_osscan_reply` stores one option after the other into `ebuf_os` and never looks at its size.
What it stores is the reply (`sendOsscanReply_stands`), so it stays inside exactly if the reply is
short enough; `sendOsscanReply_inside_iff` says this of what nmap has written.
-/

namespace Cheops.OsScan

open Cheops.Lib Cheops.Event

/-! ## The code -/

/-- What has been stored into `ebuf_os`, each time with its offset; and the variables `opt`, as an
    offset, `length` and `i`. -/
structure Packing where
  stores : List (Nat × List UInt8)
  opt : Nat
  length : Nat
  i : Nat

def Packing.advance (p : Packing) (fields : List (Nat × List UInt8)) (len : Nat) : Packing where
  stores := p.stores ++ fields.map fun field => (p.opt + field.1, field.2)
  opt := p.opt + len
  length := p.length + len
  i := p.i + 1

def packOs (p : Packing) (name : List UInt8) : Packing :=
  let len := sizeofOsScanOptionOs + (name.length + 1)
  p.advance [(0, toBe 4 OS_SCAN_OPTION_OS), (sizeofOsScanOptionOs, cstr (some name)),
    (4, toBe 4 len)] len

def packPort (p : Packing) (port : NmapHostPort) : Packing :=
  let owner := sizeofOsScanOptionPort + (cstr port.service).length
  let len := owner + (cstr port.owner).length
  p.advance [(0, toBe 4 OS_SCAN_OPTION_PORT), (8, toBe 4 port.protocol), (12, toBe 4 port.state),
    (16, toBe 4 port.portid), (20, toBe 4 port.proto), (24, toBe 4 port.rpcnum),
    (28, toBe 4 port.rpclowver), (32, toBe 4 port.rpchighver),
    (sizeofOsScanOptionPort, cstr port.service), (owner, cstr port.owner), (4, toBe 4 len)] len

def packUptime (L : Libc) (lastBoot : Option (List UInt8)) (p : Packing) (seconds : List UInt8) :
    Packing :=
  let len := sizeofOsScanOptionUptime + (cstr lastBoot).length
  p.advance [(0, toBe 4 OS_SCAN_OPTION_UPTIME), (8, toBe 4 (L.atoi seconds % 2 ^ 32).toNat),
    (sizeofOsScanOptionUptime, cstr lastBoot), (4, toBe 4 len)] len

/-- The fields of the header and of `os_scan_r` that are stored first. -/
def replyHeader (L : Libc) (n : NmapScan) (np : List UInt8) : List (Nat × List UInt8) :=
  [(4, toBe 2 sizeofEventHdr), (6, toBe 2 REPLY_OS_SCAN), (8, toBe 4 0),
    (16, toBe 4 (L.inetAddr n.addr)), (20, np)]

/-- `send_osscan_reply` up to the call of `agent_osscan_send_event`. -/
def sendOsscanReply (L : Libc) (n : NmapScan) (np : List UInt8) : Packing :=
  let length := sizeofEventHdr + sizeofOsScanR
  let p : Packing := ⟨replyHeader L n np, length, length, 0⟩
  let p := match n.osName with
    | some name => packOs p name
    | none => p
  let p := n.ports.foldl packPort p
  let p := match n.uptimeSeconds with
    | some seconds => packUptime L n.uptimeLastBoot p seconds
    | none => p
  { p with stores := p.stores ++ [(12, toBe 4 p.i), (0, toBe 4 p.length)] }

/-- The fields of an option: they do not overlap, and where they stand the option does. -/
structure Fields (fields : List (Nat × List UInt8)) (option : List UInt8) : Prop where
  apart : fields.Pairwise Apart
  within : ∀ field ∈ fields, field.1 + field.2.length ≤ option.length
  last : ∃ field ∈ fields, field.1 + field.2.length = option.length
  stands : ∀ m opt, (∀ field ∈ fields, StandsAt m (opt + field.1) field.2) → StandsAt m opt option

def Packed (p p' : Packing) (option : List UInt8) : Prop :=
  ∃ fields, Fields fields option ∧ p' = p.advance fields option.length

theorem packPort_packed (p : Packing) (port : NmapHostPort) :
    Packed p (packPort p port) (portOption port) := by
  have length : (portOption port).length =
      sizeofOsScanOptionPort + (cstr port.service).length + (cstr port.owner).length := by
    simp only [portOption, osScanOption, List.length_append, length_toBe, sizeofOsScanOptionPort]
    omega
  refine ⟨_, ⟨?_, ?_, ?_, ?_⟩, congrArg (p.advance _) length.symm⟩
  · simp only [List.pairwise_cons, List.forall_mem_cons, List.not_mem_nil, false_imp_iff,
      implies_true, List.Pairwise.nil, and_true, Apart, length_toBe, sizeofOsScanOptionPort]
    omega
  · simp only [List.forall_mem_cons, List.not_mem_nil, false_imp_iff, implies_true, and_true,
      length_toBe, length, sizeofOsScanOptionPort]
    omega
  · exact ⟨(sizeofOsScanOptionPort + (cstr port.service).length, cstr port.owner), by simp,
      length.symm⟩
  · intro m opt stand
    have header (k : Nat) : 8 + (28 + k) = 36 + k := by omega
    simp only [List.forall_mem_cons, List.not_mem_nil, false_imp_iff, implies_true, and_true,
      sizeofOsScanOptionPort, Nat.add_assoc] at stand
    obtain ⟨type, protocol, state, portid, proto, rpcnum, low, high, service, owner, len⟩ := stand
    simp only [portOption, osScanOption, standsAt_append, List.length_append, length_toBe,
      Nat.add_assoc, Nat.reduceAdd, header]
    exact ⟨⟨type, len⟩,
      ⟨⟨⟨⟨⟨⟨⟨protocol, state⟩, portid⟩, proto⟩, rpcnum⟩, low⟩, high⟩, service⟩, owner⟩

theorem packOs_packed (p : Packing) (name : List UInt8) :
    Packed p (packOs p name) (osScanOption OS_SCAN_OPTION_OS (cstr (some name))) := by
  have string : (cstr (some name)).length = name.length + 1 := List.length_append
  have length : (osScanOption OS_SCAN_OPTION_OS (cstr (some name))).length =
      sizeofOsScanOptionOs + (name.length + 1) := by
    rw [length_osScanOption, string, sizeofOsScanOptionOs]
  refine ⟨_, ⟨?_, ?_, ?_, ?_⟩, congrArg (p.advance _) length.symm⟩
  · simp only [List.pairwise_cons, List.forall_mem_cons, List.not_mem_nil, false_imp_iff,
      implies_true, List.Pairwise.nil, and_true, Apart, length_toBe, sizeofOsScanOptionOs]
    omega
  · simp only [List.forall_mem_cons, List.not_mem_nil, false_imp_iff, implies_true, and_true,
      length_toBe, length, string, sizeofOsScanOptionOs]
    omega
  · exact ⟨(sizeofOsScanOptionOs, cstr (some name)), by simp, by rw [length, string]⟩
  · intro m opt stand
    simp only [List.forall_mem_cons, List.not_mem_nil, false_imp_iff, implies_true, and_true,
      sizeofOsScanOptionOs] at stand
    obtain ⟨type, body, len⟩ := stand
    simp only [osScanOption, standsAt_append, List.length_append, length_toBe, Nat.reduceAdd,
      string]
    exact ⟨⟨type, len⟩, body⟩

theorem packUptime_packed (L : Libc) (p : Packing) (seconds : List UInt8)
    (lastBoot : Option (List UInt8)) :
    Packed p (packUptime L lastBoot p seconds) (osScanOption OS_SCAN_OPTION_UPTIME
      (toBe 4 (L.atoi seconds % 2 ^ 32).toNat ++ cstr lastBoot)) := by
  have length : (osScanOption OS_SCAN_OPTION_UPTIME
      (toBe 4 (L.atoi seconds % 2 ^ 32).toNat ++ cstr lastBoot)).length =
      sizeofOsScanOptionUptime + (cstr lastBoot).length := by
    rw [length_osScanOption, List.length_append, length_toBe, ← Nat.add_assoc]
    rfl
  refine ⟨_, ⟨?_, ?_, ?_, ?_⟩, congrArg (p.advance _) length.symm⟩
  · simp only [List.pairwise_cons, List.forall_mem_cons, List.not_mem_nil, false_imp_iff,
      implies_true, List.Pairwise.nil, and_true, Apart, length_toBe, sizeofOsScanOptionUptime]
    omega
  · simp only [List.forall_mem_cons, List.not_mem_nil, false_imp_iff, implies_true, and_true,
      length_toBe, length, sizeofOsScanOptionUptime]
    omega
  · exact ⟨(sizeofOsScanOptionUptime, cstr lastBoot), by simp, length.symm⟩
  · intro m opt stand
    have header (k : Nat) : 8 + (4 + k) = 12 + k := by omega
    simp only [List.forall_mem_cons, List.not_mem_nil, false_imp_iff, implies_true, and_true,
      sizeofOsScanOptionUptime] at stand
    obtain ⟨type, seconds, body, len⟩ := stand
    simp only [osScanOption, standsAt_append, List.length_append, length_toBe, Nat.add_assoc,
      Nat.reduceAdd, header]
    exact ⟨⟨type, len⟩, seconds, body⟩

/-! ## The reply -/

/-- The options have been stored behind the header, and nothing where their number and the length
    of the event will be. -/
structure Packs (header : List (Nat × List UInt8)) (options : List (List UInt8)) (p : Packing) :
    Prop where
  header : header ⊆ p.stores
  opt : p.opt = sizeofEventHdr + sizeofOsScanR + options.flatten.length
  length : p.length = p.opt
  i : p.i = options.length
  apart : p.stores.Pairwise Apart
  free : ∀ s ∈ p.stores, 4 ≤ s.1 ∧ (s.1 + s.2.length ≤ 12 ∨ 16 ≤ s.1)
  within : ∀ s ∈ p.stores, s.1 + s.2.length ≤ p.opt
  last : ∃ s ∈ p.stores, s.1 + s.2.length = p.opt
  stands : ∀ m, (∀ s ∈ p.stores, StandsAt m s.1 s.2) →
    StandsAt m (sizeofEventHdr + sizeofOsScanR) options.flatten

variable {header : List (Nat × List UInt8)} {options : List (List UInt8)} {p p' : Packing}

theorem Packs.packed {option : List UInt8} (packs : Packs header options p)
    (packed : Packed p p' option) : Packs header (options ++ [option]) p' := by
  obtain ⟨fields, laid, rfl⟩ := packed
  have flat : (options ++ [option]).flatten = options.flatten ++ option := by
    rw [List.flatten_append, List.flatten_singleton]
  have behind : 28 ≤ p.opt := by
    rw [packs.opt]
    exact Nat.le_add_right _ _
  constructor
  case header => exact List.subset_append_of_subset_left _ packs.header
  case opt =>
    rw [flat, List.length_append, ← Nat.add_assoc, ← packs.opt]
    rfl
  case length => exact congrArg (· + option.length) packs.length
  case i =>
    rw [List.length_append, List.length_singleton, ← packs.i]
    rfl
  case apart =>
    refine List.pairwise_append.mpr ⟨packs.apart, List.pairwise_map.mpr ?_, ?_⟩
    · refine laid.apart.imp fun apart => ?_
      unfold Apart at apart ⊢
      dsimp only
      omega
    · intro s before field member
      obtain ⟨field, -, rfl⟩ := List.mem_map.mp member
      have ends := packs.within s before
      exact .inl (by omega)
  case free =>
    refine List.forall_mem_append.mpr ⟨packs.free, List.forall_mem_map.mpr fun field _ => ?_⟩
    dsimp only
    omega
  case within =>
    refine List.forall_mem_append.mpr ⟨fun s before => ?_, List.forall_mem_map.mpr ?_⟩
    · exact Nat.le_trans (packs.within s before) (Nat.le_add_right _ _)
    · intro field member
      have ends := laid.within field member
      change p.opt + field.1 + field.2.length ≤ p.opt + option.length
      omega
  case last =>
    obtain ⟨field, member, ends⟩ := laid.last
    refine ⟨_, List.mem_append_right _ (List.mem_map.mpr ⟨field, member, rfl⟩), ?_⟩
    change p.opt + field.1 + field.2.length = p.opt + option.length
    omega
  case stands =>
    intro m stand
    obtain ⟨before, fields⟩ := List.forall_mem_append.mp stand
    rw [flat, standsAt_append, ← packs.opt]
    exact ⟨packs.stands m before, laid.stands m _ (List.forall_mem_map.mp fields)⟩

theorem Packs.ports (packs : Packs header options p) (ports : List NmapHostPort) :
    Packs header (options ++ ports.map portOption) (ports.foldl packPort p) := by
  induction ports generalizing options p with
  | nil => rwa [List.map_nil, List.append_nil]
  | cons port rest ih =>
    rw [List.map_cons, List.append_cons]
    exact ih (packs.packed (packPort_packed p port))

theorem Packs.os (packs : Packs header [] p) (n : NmapScan) :
    Packs header (osOption n)
      (match n.osName with
      | some name => packOs p name
      | none => p) := by
  unfold osOption
  cases n.osName with
  | none => exact packs
  | some name => exact packs.packed (packOs_packed p name)

theorem Packs.uptime (packs : Packs header options p) (L : Libc) (n : NmapScan) :
    Packs header (options ++ uptimeOption L n)
      (match n.uptimeSeconds with
      | some seconds => packUptime L n.uptimeLastBoot p seconds
      | none => p) := by
  unfold uptimeOption
  cases n.uptimeSeconds with
  | none => rwa [List.append_nil]
  | some seconds => exact packs.packed (packUptime_packed L p seconds n.uptimeLastBoot)

variable {np : List UInt8}

/-- The reply before the number of options and the length are stored. -/
theorem sendOsscanReply_packs (L : Libc) (n : NmapScan) (pointer : np.length = 8) :
    ∃ p, Packs (replyHeader L n np) (osOption n ++ n.ports.map portOption ++ uptimeOption L n) p ∧
      sendOsscanReply L n np =
        { p with stores := p.stores ++ [(12, toBe 4 p.i), (0, toBe 4 p.length)] } := by
  have empty : Packs (replyHeader L n np) []
      ⟨replyHeader L n np, sizeofEventHdr + sizeofOsScanR, sizeofEventHdr + sizeofOsScanR, 0⟩ := by
    refine ⟨List.Subset.refl _, rfl, rfl, rfl, ?_, ?_, ?_, ?_, fun m _ => standsAt_nil⟩
    · simp only [replyHeader, List.pairwise_cons, List.forall_mem_cons, List.not_mem_nil,
        false_imp_iff, implies_true, List.Pairwise.nil, and_true, Apart, length_toBe]
      omega
    · simp only [replyHeader, List.forall_mem_cons, List.not_mem_nil, false_imp_iff, implies_true,
        and_true, length_toBe]
      omega
    · simp only [replyHeader, List.forall_mem_cons, List.not_mem_nil, false_imp_iff, implies_true,
        and_true, length_toBe, pointer, sizeofEventHdr, sizeofOsScanR]
      omega
    · exact ⟨(20, np), by simp [replyHeader], by rw [pointer]; rfl⟩
  exact ⟨_, ((empty.os n).ports n.ports).uptime L n, rfl⟩

/-- The stored pieces are the reply, whatever `ebuf_os` held before. -/
theorem sendOsscanReply_stands (L : Libc) (n : NmapScan) (pointer : np.length = 8) (m : Mem) :
    StandsAt (stored m (sendOsscanReply L n np).stores) 0 (osscanReply L n np) := by
  obtain ⟨p, packs, reply⟩ := sendOsscanReply_packs L n pointer
  have apart : (sendOsscanReply L n np).stores.Pairwise Apart := by
    rw [reply]
    refine List.pairwise_append.mpr ⟨packs.apart, ?_, ?_⟩
    · simp [Apart]
    · intro s before last member
      obtain ⟨behind, around⟩ := packs.free s before
      simp only [List.mem_cons, List.not_mem_nil, or_false] at member
      rcases member with rfl | rfl
      · exact around
      · exact .inr behind
  have stand := stands_of_apart (m := m) apart
  rw [reply] at stand ⊢
  obtain ⟨before, last⟩ := List.forall_mem_append.mp stand
  simp only [List.forall_mem_cons, List.not_mem_nil, false_imp_iff, implies_true, and_true] at last
  have header : ∀ s ∈ replyHeader L n np, StandsAt _ s.1 s.2 :=
    fun s member => before s (packs.header member)
  simp only [replyHeader, List.forall_mem_cons, List.not_mem_nil, false_imp_iff, implies_true,
    and_true] at header
  obtain ⟨hlen, type, flags, ip, page⟩ := header
  have options := packs.stands _ before
  have whole : osscanReply L n np = eventHdr p.length sizeofEventHdr REPLY_OS_SCAN 0 ++
      (toBe 4 p.i ++ toBe 4 (L.inetAddr n.addr) ++ np) ++
        (osOption n ++ n.ports.map portOption ++ uptimeOption L n).flatten := by
    rw [packs.length, packs.opt, packs.i]
    rfl
  simp only [whole, eventHdr, standsAt_append, List.length_append, length_toBe, pointer]
  exact ⟨⟨⟨⟨⟨last.2, hlen⟩, type⟩, flags⟩, ⟨last.1, ip⟩, page⟩, options⟩

/-- ` attr="value"`. -/
def attrText (prop : List UInt8 × List UInt8) : List UInt8 :=
  32 :: (prop.1 ++ 61 :: 34 :: (prop.2 ++ [34]))

/-- A name that needs no care, and a value without quotes, references and tags. -/
def PlainName (name : List UInt8) : Prop := name ≠ [] ∧ ∀ c ∈ name, 97 ≤ c ∧ c ≤ 122
def PlainValue (value : List UInt8) : Prop :=
  ∀ c ∈ value, 32 ≤ c ∧ c < 127 ∧ c ≠ 34 ∧ c ≠ 38 ∧ c ≠ 60

instance (name : List UInt8) : Decidable (PlainName name) := inferInstanceAs (Decidable (_ ∧ _))
instance (value : List UInt8) : Decidable (PlainValue value) :=
  inferInstanceAs (Decidable (∀ _ ∈ _, _))

/-- Texts that a correct parser reads as an element. -/
inductive Reads : List UInt8 → XmlNode → Prop
  | empty {name : List UInt8} {props : List (List UInt8 × List UInt8)} (plain : PlainName name)
      (attrs : ∀ prop ∈ props, PlainName prop.1 ∧ PlainValue prop.2)
      (distinct : (props.map Prod.fst).Nodup) :
      Reads (60 :: (name ++ ((props.map attrText).flatten ++ [47, 62]))) ⟨name, false, props, []⟩
  | element {name : List UInt8} {texts : List (List UInt8)} {children : List XmlNode}
      (plain : PlainName name) (inner : List.Forall₂ Reads texts children) :
      Reads (60 :: (name ++ 62 :: (texts.flatten ++ 60 :: 47 :: (name ++ [62]))))
        ⟨name, false, [], children⟩

def around (name : String) (texts : List (List UInt8)) : List UInt8 :=
  60 :: (text name ++ 62 :: (texts.flatten ++ 60 :: 47 :: (text name ++ [62])))

end Cheops.OsScan
