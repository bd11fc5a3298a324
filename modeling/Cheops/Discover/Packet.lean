import Cheops.Discover.Replies
import Cheops.Lib.Agree

/-! # Packets and the rest of the buffer

`recvfrom` fills the first bytes of a local buffer, and `handle_ping_recieve` and `handle_map`
look for headers at offsets which the packet itself names.  `received_agree` says for which
packets nothing depends on what stood in the buffer before.
-/

namespace Cheops.Discover

open Cheops.Lib
open Cheops.Map (MapState MapRequest handleMap handleLastHop ipHlen ipP ipDst icmpType icmpSeq
  udpDest uchar EMPTY_PORT ICMP_MINLEN ICMP_ECHOREPLY ICMP_DEST_UNREACH ICMP_TIME_EXCEEDED
  MAP_MAX IPPROTO_ICMP)

/-! ## The condition -/

def IPPROTO_UDP : Nat := 17

/-- The hop an answer is taken for, if it quotes a packet of protocol `p`, is one that
    `handle_map` looks at. -/
def InReach (p : Nat) (buf : Mem) (off : Nat) : Prop :=
  uchar (if p = IPPROTO_ICMP then (icmpSeq buf off : Int) else udpDest buf off - EMPTY_PORT) <
    MAP_MAX

/-- What `handle_ping_recieve` and `handle_map` examine has been received: the address that an
    `ICMP_TIME_EXCEEDED` quotes, if its own test of the length lets it pass; the protocol in an
    `ICMP_DEST_UNREACH`, unless the hop is in reach under either protocol or under none; and the
    pointer in an echo reply. -/
def Complete (buf : Mem) (len : Int) : Prop :=
  let inner := ipHlen buf 0 + ICMP_MINLEN
  let type := icmpType buf 0
  len < inner ∨
    (type = ICMP_TIME_EXCEEDED →
      len - inner < ipHlen buf inner + ICMP_MINLEN ∨ 20 ≤ len - inner) ∧
    (type = ICMP_DEST_UNREACH → len - inner = ICMP_MINLEN → ipHlen buf inner = 0 →
      EMPTY_PORT ≤ udpDest buf inner →
      (InReach IPPROTO_ICMP buf inner ↔ InReach IPPROTO_UDP buf inner)) ∧
    (type = ICMP_ECHOREPLY → inner + 8 ≤ len)

/-- `handle_ping_recieve` does the same whatever else is in the buffer, with any requests. -/
def Isolated (buf : Mem) (len : Int) (src : Nat) : Prop :=
  ∀ buf', Agree len buf buf' → ∀ (clock : Nat → Int) (w : World),
    handlePingRecieve buf' len src clock w = handlePingRecieve buf len src clock w

/-! ## Headers that have been received -/

section
variable {buf buf' : Mem} {len : Int} (off : Nat)

theorem ipHlen_agree (same : Agree len buf buf') (bound : (off : Int) < len) :
    ipHlen buf' off = ipHlen buf off := by
  rw [ipHlen, ipHlen, same off bound]

theorem icmpType_agree (same : Agree len buf buf') (bound : (off + ipHlen buf off : Int) < len) :
    icmpType buf' off = icmpType buf off := by
  rw [icmpType, icmpType, ipHlen_agree _ same (by omega), same _ (by omega)]

theorem udpDest_agree (same : Agree len buf buf')
    (bound : (off + ipHlen buf off + 4 : Int) ≤ len) : udpDest buf' off = udpDest buf off := by
  rw [udpDest, udpDest, ipHlen_agree _ same (by omega), ← same.be16 (by push_cast; omega)]

theorem icmpSeq_agree (same : Agree len buf buf')
    (bound : (off + ipHlen buf off + 8 : Int) ≤ len) : icmpSeq buf' off = icmpSeq buf off := by
  rw [icmpSeq, icmpSeq, ipHlen_agree _ same (by omega), ← same.be16 (by push_cast; omega)]

theorem inReach_agree {p : Nat} (same : Agree len buf buf')
    (bound : (off + ipHlen buf off + 8 : Int) ≤ len) :
    InReach p buf' off ↔ InReach p buf off := by
  rw [InReach, InReach, icmpSeq_agree _ same bound, udpDest_agree _ same (by omega)]

end

/-! ## `handle_map` -/

section
variable {buf buf' : Mem} {len : Int} {off src : Nat} {st : MapState} {clock : Nat → Int}

/-- Nothing but a header alone is taken for an answer. -/
theorem handleLastHop_of_ne (other : len ≠ ipHlen buf off + ICMP_MINLEN) :
    handleLastHop buf off len src st = (false, st) := if_pos other

theorem handleLastHop_of_not_inReach (far : ¬ InReach (ipP buf off) buf off) :
    handleLastHop buf off len src st = (false, st) := by
  unfold handleLastHop
  split
  next => rfl
  next => exact if_pos (Nat.not_lt.mp far)

theorem handleLastHop_of_inReach (size : len = ipHlen buf off + ICMP_MINLEN)
    (near : InReach (ipP buf off) buf off) :
    handleLastHop buf off len src st =
      let (ret, mrq, done) := Map.echoLoop src st.mrq false st.done
      (ret, { st with mrq, done }) := by
  unfold handleLastHop
  rw [if_neg (not_not_intro size)]
  exact if_neg (Nat.not_le.mpr near)

/-- The hop that the packet gives is in reach or not, and this is all that counts. -/
theorem handleLastHop_congr (size : len = ipHlen buf off + ICMP_MINLEN)
    (size' : len = ipHlen buf' off + ICMP_MINLEN)
    (same : InReach (ipP buf' off) buf' off ↔ InReach (ipP buf off) buf off) :
    handleLastHop buf' off len src st = handleLastHop buf off len src st := by
  by_cases near : InReach (ipP buf off) buf off
  case pos =>
    rw [handleLastHop_of_inReach size near, handleLastHop_of_inReach size' (same.mpr near)]
  case neg =>
    rw [handleLastHop_of_not_inReach near,
      handleLastHop_of_not_inReach fun near' => near (same.mp near')]

/-- Only whether the quoted protocol is ICMP matters. -/
theorem inReach_iff {p : Nat} (same : InReach IPPROTO_ICMP buf off ↔ InReach IPPROTO_UDP buf off) :
    InReach p buf off ↔ InReach IPPROTO_ICMP buf off := by
  by_cases icmp : p = IPPROTO_ICMP
  case pos => rw [icmp]
  case neg =>
    rw [same, InReach, InReach, if_neg icmp, if_neg (by decide)]

/-- The case `ICMP_DEST_UNREACH`. -/
theorem unreach_agree {inner : Nat} (same : Agree len buf buf') (bound : (inner : Int) ≤ len)
    (complete : len - inner = ICMP_MINLEN → ipHlen buf inner = 0 → EMPTY_PORT ≤ udpDest buf inner →
      (InReach IPPROTO_ICMP buf inner ↔ InReach IPPROTO_UDP buf inner)) :
    (if udpDest buf' inner < EMPTY_PORT then (false, st)
      else handleLastHop buf' inner (len - inner) src st) =
    if udpDest buf inner < EMPTY_PORT then (false, st)
      else handleLastHop buf inner (len - inner) src st := by
  have minlen : ICMP_MINLEN = 8 := rfl
  by_cases header : len - inner = 0
  case pos =>
    rw [handleLastHop_of_ne (by omega), handleLastHop_of_ne (by omega), ite_self, ite_self]
  case neg =>
    have hlen : ipHlen buf' inner = ipHlen buf inner := ipHlen_agree _ same (by omega)
    by_cases size : len - inner = ipHlen buf inner + ICMP_MINLEN
    case neg =>
      rw [handleLastHop_of_ne (by rwa [hlen]), handleLastHop_of_ne size, ite_self, ite_self]
    case pos =>
      rw [udpDest_agree _ same (by omega)]
      split
      next => rfl
      next port =>
        apply handleLastHop_congr size (by rwa [hlen])
        rw [inReach_agree _ same (by omega)]
        by_cases none : ipHlen buf inner = 0
        case pos =>
          have either := complete (by omega) none (Nat.not_lt.mp port)
          exact (inReach_iff either).trans (inReach_iff either).symm
        case neg =>
          -- the header is a multiple of 4 bytes, so the protocol is in front of what was tested
          have words : 4 ≤ ipHlen buf inner := by
            unfold ipHlen at none ⊢
            omega
          rw [ipP, ipP, same (inner + 9) (by omega)]

theorem handleMap_agree (same : Agree len buf buf') (complete : Complete buf len)
    (long : (ipHlen buf 0 + ICMP_MINLEN : Int) ≤ len) :
    handleMap buf' len src clock st = handleMap buf len src clock st := by
  obtain short | ⟨exceeded, unreach, echo⟩ := complete
  · push_cast at short
    omega
  have minlen : ICMP_MINLEN = 8 := rfl
  have hlen : ipHlen buf' 0 = ipHlen buf 0 := ipHlen_agree _ same (by omega)
  have type : icmpType buf' 0 = icmpType buf 0 := icmpType_agree _ same (by push_cast; omega)
  unfold handleMap
  simp only [hlen, type]
  generalize hinner : ipHlen buf 0 + ICMP_MINLEN = inner at exceeded unreach echo ⊢
  have bound : (inner : Int) ≤ len := by omega
  split
  next hexceeded =>
    by_cases header : len - inner = 0
    case pos => rw [if_pos (by omega), if_pos (by omega)]
    case neg =>
      rw [ipHlen_agree _ same (by omega)]
      split
      next => rfl
      next room =>
        have whole := (exceeded hexceeded).resolve_left room
        rw [ipDst, ipDst, same.be32 (by omega)]
  next =>
  split
  next hunreach => exact unreach_agree same bound (unreach hunreach)
  next =>
  split
  next hecho =>
    have pointer := echo hecho
    rw [handleLastHop_of_ne (by omega), handleLastHop_of_ne (by omega)]
  next => rfl

theorem received_eq {clock : Nat → Int} {w : World} (same : Agree len buf buf')
    (complete : Complete buf len) :
    handlePingRecieve buf' len src clock w = handlePingRecieve buf len src clock w := by
  have minlen : Map.ICMP_MINLEN = 8 := rfl
  by_cases empty : len ≤ 0
  case pos =>
    unfold handlePingRecieve
    rw [if_pos (by omega), if_pos (by omega)]
  case neg =>
    have hlen : ipHlen buf' 0 = ipHlen buf 0 := ipHlen_agree _ same (by omega)
    unfold handlePingRecieve
    simp only [hlen]
    split
    next => rfl
    next long =>
      have type : icmpType buf' 0 = icmpType buf 0 := icmpType_agree _ same (by push_cast; omega)
      rw [handleMap_agree same complete (by omega), type]
      rcases handleMap buf len (ntohl src) clock w.map with ⟨mapped, map⟩
      dsimp only
      split
      next => rfl
      next =>
      split
      next => rfl
      next =>
      split
      next => rfl
      next notEcho =>
        obtain short | ⟨-, -, echo⟩ := complete
        · push_cast at short
          omega
        have pointer := echo (not_not.mp notEcho)
        push_cast at pointer
        rw [← same.get (by push_cast; omega)]

end

/-! ## Packets that are not complete -/

def World.mapping (dest : Nat) : World :=
  { World.initial with map := Map.startMapping (fun _ => dest + 1) 1 0 dest 0 0 Map.initial }

def World.discovering (addr ip : Nat) : World :=
  { World.initial with
    scan := { Scan.initial with
      pingQ := [{ addr, start := ip, end_ := ip, current := ntohl ip, retry := 0, flags := 0
                  time := 0, log := [], runs := 0
                  start_le := Nat.le_refl _, le_end := Nat.le_refl _ }] } }

section
variable {buf buf' : Mem} {len : Int} {src dest : Nat} {clock : Nat → Int} {w : World}

theorem handlePingRecieve_map (long : (ipHlen buf 0 + ICMP_MINLEN : Int) ≤ len) :
    (handlePingRecieve buf len src clock w).map =
      (handleMap buf len (ntohl src) clock w.map).2 := by
  unfold handlePingRecieve
  rw [if_neg (by omega)]
  rcases handleMap buf len (ntohl src) clock w.map with ⟨mapped, map⟩
  dsimp only
  split_ifs
  · rfl
  · rfl
  · rfl
  · split <;> rfl

theorem mapping_mrq (dest : Nat) :
    ∃ mr, (World.mapping dest).map.mrq = [mr] ∧ mr.dest = dest ∧ mr.ttl = 1 := by
  simp [World.mapping, Map.startMapping, Map.initial, Map.mrProbe]

theorem mapping_exceeded (type : icmpType buf 0 = ICMP_TIME_EXCEEDED)
    (room : ¬ len - (ipHlen buf 0 + ICMP_MINLEN : Nat) <
      ipHlen buf (ipHlen buf 0 + ICMP_MINLEN) + ICMP_MINLEN) :
    (handleMap buf len src clock (World.mapping dest).map).2.mrq.map MapRequest.ttl =
      if dest = ipDst buf (ipHlen buf 0 + ICMP_MINLEN) then [2] else [1] := by
  obtain ⟨mr, queue, hdest, ttl⟩ := mapping_mrq dest
  unfold handleMap
  dsimp only
  rw [if_pos type, if_neg room, queue]
  split
  next here => simp [Map.exceededLoop, hdest, here, ttl, MAP_MAX, Map.mrProbe, MapRequest.hop]
  next other => simp [Map.exceededLoop, hdest, other, ttl]

theorem mapping_unreach (type : icmpType buf 0 = ICMP_DEST_UNREACH)
    (size : len - (ipHlen buf 0 + ICMP_MINLEN : Nat) =
      ipHlen buf (ipHlen buf 0 + ICMP_MINLEN) + ICMP_MINLEN)
    (port : EMPTY_PORT ≤ udpDest buf (ipHlen buf 0 + ICMP_MINLEN)) :
    (handleMap buf len src clock (World.mapping src).map).2.mrq = [] ↔
      InReach (ipP buf (ipHlen buf 0 + ICMP_MINLEN)) buf (ipHlen buf 0 + ICMP_MINLEN) := by
  obtain ⟨mr, queue, hdest, ttl⟩ := mapping_mrq src
  unfold handleMap
  dsimp only
  rw [if_neg (by rw [type]; decide), if_pos type, if_neg (Nat.not_lt.mpr port)]
  by_cases near : InReach (ipP buf (ipHlen buf 0 + ICMP_MINLEN)) buf (ipHlen buf 0 + ICMP_MINLEN)
  case pos =>
    rw [handleLastHop_of_inReach size near, queue]
    simp [near, Map.echoLoop, hdest, ttl]
  case neg =>
    rw [handleLastHop_of_not_inReach near, queue]
    simp [near]

theorem discovering_map : (handleMap buf len src clock Map.initial).1 = false := by
  unfold handleMap handleLastHop
  dsimp only [Map.initial, Map.echoLoop]
  split_ifs <;> rfl

/-- An echo reply is taken for an answer to the request that it points to. -/
theorem discovering_echo {addr : Nat} (type : icmpType buf 0 = ICMP_ECHOREPLY)
    (long : (ipHlen buf 0 + ICMP_MINLEN : Int) ≤ len) :
    (handlePingRecieve buf len src clock (World.discovering addr src)).cached = some src ↔
      ByteOrder.little.get 8 buf (ipHlen buf 0 + 8) = addr := by
  have unmapped := @discovering_map buf len (ntohl src) clock
  unfold handlePingRecieve
  rw [if_neg (by omega)]
  change (handleMap buf len (ntohl src) clock (World.discovering addr src).map).1 = false
    at unmapped
  rcases hmap : handleMap buf len (ntohl src) clock (World.discovering addr src).map with
    ⟨mapped, map⟩
  rw [hmap] at unmapped
  obtain rfl : mapped = false := unmapped
  dsimp only
  rw [if_neg Bool.false_ne_true, if_neg (by rw [type]; decide), if_neg (not_not_intro type)]
  split
  next none =>
    constructor
    · nofun
    · intro pointer
      simp [inPingQRange, inPingQ, World.discovering, pointer] at none
  next q found =>
    have listed := (Option.filter_eq_some_iff.mp found).1
    rw [inPingQ] at listed
    have pointer := List.find?_some listed
    rw [decide_eq_true_eq] at pointer
    rw [List.mem_singleton.mp (List.mem_of_find?_eq_some listed)] at pointer
    exact iff_of_true rfl pointer.symm

/-! ## The condition is exact -/

theorem Isolated.exceeded (h : Isolated buf len src)
    (long : (ipHlen buf 0 + ICMP_MINLEN : Int) ≤ len)
    (type : icmpType buf 0 = ICMP_TIME_EXCEEDED) :
    len - (ipHlen buf 0 + ICMP_MINLEN : Nat) <
      ipHlen buf (ipHlen buf 0 + ICMP_MINLEN) + ICMP_MINLEN ∨
    20 ≤ len - (ipHlen buf 0 + ICMP_MINLEN : Nat) := by
  have minlen : ICMP_MINLEN = 8 := rfl
  by_contra hnot
  obtain ⟨room, cut⟩ := not_or.mp hnot
  push_cast at cut
  set last := ipHlen buf 0 + ICMP_MINLEN + 16 + 3 with hlast
  have bound : len ≤ last := by omega
  have same : Agree len buf (Function.update buf last (buf last + 1)) := agree_update bound
  have hlen := ipHlen_agree 0 same (by omega)
  have hlen' := ipHlen_agree (ipHlen buf 0 + ICMP_MINLEN) same (by push_cast; omega)
  have type' := icmpType_agree 0 same (by push_cast; omega)
  have handled := congrArg Received.map
    (h _ same (fun _ => 0) (World.mapping (ipDst buf (ipHlen buf 0 + ICMP_MINLEN))))
  rw [handlePingRecieve_map long, handlePingRecieve_map (by rwa [hlen])] at handled
  have ttls := congrArg (fun st => st.mrq.map MapRequest.ttl) handled
  rw [mapping_exceeded type room, if_pos rfl,
    mapping_exceeded (by rw [type', type]) (by rwa [hlen, hlen']), hlen] at ttls
  split at ttls
  next dst => exact be32_update_last (by simp [hlast]) dst.symm
  next => simp at ttls

theorem Isolated.unreach (h : Isolated buf len src)
    (type : icmpType buf 0 = ICMP_DEST_UNREACH)
    (size : len - (ipHlen buf 0 + ICMP_MINLEN : Nat) = ICMP_MINLEN)
    (none : ipHlen buf (ipHlen buf 0 + ICMP_MINLEN) = 0)
    (port : EMPTY_PORT ≤ udpDest buf (ipHlen buf 0 + ICMP_MINLEN)) :
    InReach IPPROTO_ICMP buf (ipHlen buf 0 + ICMP_MINLEN) ↔
      InReach IPPROTO_UDP buf (ipHlen buf 0 + ICMP_MINLEN) := by
  have minlen : ICMP_MINLEN = 8 := rfl
  push_cast at size
  set at_ := ipHlen buf 0 + ICMP_MINLEN + 9 with hat
  have bound : len ≤ at_ := by omega
  have given (p : UInt8) :
      (handleMap buf len (ntohl src) (fun _ => 0) (World.mapping (ntohl src)).map).2.mrq = [] ↔
        InReach p.toNat buf (ipHlen buf 0 + ICMP_MINLEN) := by
    have same : Agree len buf (Function.update buf at_ p) := agree_update bound
    have hlen := ipHlen_agree 0 same (by omega)
    have hlen' := ipHlen_agree (ipHlen buf 0 + ICMP_MINLEN) same (by push_cast; omega)
    have type' := icmpType_agree 0 same (by push_cast; omega)
    have port' := udpDest_agree (ipHlen buf 0 + ICMP_MINLEN) same (by push_cast; omega)
    have handled := congrArg Received.map (h _ same (fun _ => 0) (World.mapping (ntohl src)))
    rw [handlePingRecieve_map (by rw [hlen]; omega), handlePingRecieve_map (by omega)] at handled
    rw [← handled, mapping_unreach (by rw [type', type]) (by rw [hlen, hlen']; push_cast; omega)
      (by rw [hlen, port']; exact port), hlen, inReach_agree _ same (by push_cast; omega)]
    simp [ipP, hat]
  exact (given 1).symm.trans (given 17)

theorem Isolated.echo (h : Isolated buf len src)
    (long : (ipHlen buf 0 + ICMP_MINLEN : Int) ≤ len)
    (type : icmpType buf 0 = ICMP_ECHOREPLY) : (ipHlen buf 0 + ICMP_MINLEN : Nat) + 8 ≤ len := by
  have minlen : ICMP_MINLEN = 8 := rfl
  by_contra cut
  push_cast at cut
  set last := ipHlen buf 0 + 8 + 7 with hlast
  have bound : len ≤ last := by omega
  have same : Agree len buf (Function.update buf last (buf last + 1)) := agree_update bound
  have hlen := ipHlen_agree 0 same (by omega)
  have type' := icmpType_agree 0 same (by push_cast; omega)
  have handled := congrArg Received.cached
    (h _ same (fun _ => 0)
      (World.discovering (ByteOrder.little.get 8 buf (ipHlen buf 0 + 8)) src))
  rw [(discovering_echo type long).mpr rfl,
    discovering_echo (by rw [type', type]) (by rwa [hlen]), hlen] at handled
  exact get_update_last (by simp [hlast]) handled

/-- Exactly the packets that are complete are handled the same whatever else the buffer holds. -/
theorem received_agree (buf : Mem) (len : Int) (src : Nat) :
    Isolated buf len src ↔ Complete buf len := by
  constructor
  · intro h
    by_cases short : len < (ipHlen buf 0 + ICMP_MINLEN : Nat)
    case pos => exact .inl short
    case neg =>
      have long : (ipHlen buf 0 + ICMP_MINLEN : Int) ≤ len := by
        push_cast at short
        omega
      exact .inr ⟨h.exceeded long, h.unreach, h.echo long⟩
  · intro complete buf' same clock w
    exact received_eq same complete

def echoPacket (behind : List UInt8) : Mem := fun i =>
  ([0x45, 0, 0, 28, 0, 0, 0, 0, 64, 1, 0, 0, 10, 0, 0, 1, 10, 0, 0, 2] ++
    [0, 0, 0, 0, 0, 0, 0, 0] ++ behind).getD i 0

/-- With a request for 10.0.0.1 at 64, an echo reply without data is answered if the pointer of
    an earlier one is left in the buffer. -/
theorem received_stale :
    ¬ ∀ (history : List (Event × List DiscoverIpv4R)) (w : World),
      Run Transition World.initial history w →
      ∀ (buf buf' : Mem) (len : Int) (src : Nat) (clock : Nat → Int), 0 ≤ len → len ≤ 1024 →
        Agree len buf buf' →
        handlePingRecieve buf' len src clock w = handlePingRecieve buf len src clock w := by
  intro h
  have same : Agree 28 (echoPacket []) (echoPacket [64]) := by
    intro i before
    have : i < 28 := by omega
    interval_cases i <;> rfl
  have handled := congrArg Received.cached
    (h [(.request 64 0x0a000001 0x0a000001 0 ⟨7, 9⟩ (some 1) ⟨5, 0⟩, [])] _
      (.snoc .refl (.request (by decide) rfl)) _ _ 28 0x0100000a (fun _ => 0) (by decide)
      (by decide) same)
  revert handled
  decide

end

end Cheops.Discover
