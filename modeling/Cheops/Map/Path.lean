import Cheops.Lib.Run
import Cheops.Map.Loops

/-! # Links over whole runs

The path to a destination is `routers` and then the destination itself.  A probe is answered by
the hop that its TTL reaches, and an answer may come at any time, any number of times, or never.

`links_onPath` says what is reported of the path, in runs where no answer meets a request that
waits for another hop.  One that does meets the assignment in `handle_map` and is taken for the
hop the request waits for (`misled_reports`).
-/

namespace Cheops.Map

open Cheops.Lib

/-! ## The network -/

/-- `p` is quoted by the packet, as `sendicmp` has sent it. -/
structure Exceeded (p : Probe) (buf : Mem) (len : Int) : Prop where
  type : icmpType buf 0 = ICMP_TIME_EXCEEDED
  complete :
    ipHlen buf 0 + ICMP_MINLEN + ipHlen buf (ipHlen buf 0 + ICMP_MINLEN) + ICMP_MINLEN ≤ len
  proto : ipP buf (ipHlen buf 0 + ICMP_MINLEN) = IPPROTO_ICMP
  dst : ipDst buf (ipHlen buf 0 + ICMP_MINLEN) = p.ipDst
  seq : icmpSeq buf (ipHlen buf 0 + ICMP_MINLEN) = p.icmpSeq

/-- The packet answers the echo request `p`. -/
structure EchoReply (p : Probe) (buf : Mem) (len : Int) : Prop where
  type : icmpType buf 0 = ICMP_ECHOREPLY
  complete : len = ipHlen buf 0 + ICMP_MINLEN
  proto : ipP buf 0 = IPPROTO_ICMP
  seq : icmpSeq buf 0 = p.icmpSeq

/-- The paths through the network, and the local addresses at their beginnings. -/
structure Network where
  getlocalip : Nat → Nat
  routers : Nat → List Nat

/-- A router answers a probe that ends at it, and the destination one that gets through. -/
inductive Network.Answers (net : Network) (p : Probe) : Nat → Mem → Int → Prop
  | router {src : Nat} {buf : Mem} {len : Int} (pos : 1 ≤ p.ipTtl)
      (hop : (net.routers p.ipDst)[p.ipTtl - 1]? = some src) (exceeded : Exceeded p buf len) :
      Network.Answers net p src buf len
  | destination {buf : Mem} {len : Int} (through : (net.routers p.ipDst).length < p.ipTtl)
      (reply : EchoReply p buf len) : Network.Answers net p p.ipDst buf len

def Network.edges (net : Network) (dest : Nat) : List (Nat × Nat) :=
  (net.getlocalip dest :: net.routers dest).zip (net.routers dest ++ [dest])

/-! ## Steps -/

inductive Label where
  | start (schedId now : Int) (ip agent np : Nat)
  | timeout (current : Int) (clock : Nat → Int)
  | reply (p : Probe) (src : Nat) (buf : Mem) (len : Int) (clock : Nat → Int)

inductive Step (net : Network) : MapState → Label → MapState → Prop
  | start {st : MapState} {schedId now : Int} {ip agent np : Nat} :
      Step net st (.start schedId now ip agent np)
        (startMapping net.getlocalip schedId now ip agent np st)
  | timeout {st : MapState} {current : Int} {clock : Nat → Int} :
      Step net st (.timeout current clock) (mapTimeout current clock st).2
  | reply {st : MapState} {p : Probe} {src : Nat} {buf : Mem} {len : Int} {clock : Nat → Int}
      (sent : p ∈ st.done.probes) (answers : net.Answers p src buf len) :
      Step net st (.reply p src buf len clock) (handleMap buf len src clock st).2

/-- The request waits for another hop of the same path than the one that answers `p`, and the
    answer will be taken for it. -/
def Network.Misled (net : Network) (p : Probe) (mr : MapRequest) : Prop :=
  mr.dest = p.ipDst ∧ mr.ttl ≠ p.ipTtl ∧
    if p.ipTtl ≤ (net.routers p.ipDst).length then mr.ttl < MAP_MAX else p.ipTtl < MAP_MAX

/-- No request is misled by the step. -/
def Network.Awaited (net : Network) (st : MapState) : Label → Prop
  | .reply p .. => ∀ mr ∈ st.mrq, ¬ net.Misled p mr
  | _ => True

/-! ## What `handle_map` does with an answer -/

theorem handleMap_exceeded {p : Probe} {src : Nat} {buf : Mem} {len : Int} {clock : Nat → Int}
    (h : Exceeded p buf len) (st : MapState) :
    (handleMap buf len src clock st).2 = { st with
      mrq := (exceededLoop p.ipDst src clock st.mrq st.done).1
      done := (exceededLoop p.ipDst src clock st.mrq st.done).2 } := by
  have hlen := h.complete
  unfold handleMap
  dsimp only
  rw [if_pos h.type, if_neg (by omega), h.dst]

theorem handleMap_echoReply {p : Probe} {src : Nat} {buf : Mem} {len : Int} {clock : Nat → Int}
    (h : EchoReply p buf len) (st : MapState) :
    (handleMap buf len src clock st).2 =
      if uchar p.icmpSeq ≥ MAP_MAX then st
      else { st with
        mrq := (echoLoop src st.mrq false st.done).2.1
        done := (echoLoop src st.mrq false st.done).2.2 } := by
  unfold handleMap handleLastHop
  dsimp only
  rw [h.type, if_neg (by decide), if_neg (by decide), if_pos rfl, if_neg (by simp [h.complete]),
    if_pos h.proto, h.seq]
  split <;> rfl

def Probe.Sent (p : Probe) : Prop := p.icmpSeq = p.ipTtl ∧ 1 ≤ p.ipTtl ∧ p.ipTtl ≤ MAP_MAX

theorem sent_mrProbe (now : Int) (mr : MapRequest) : (mrProbe now mr).2.Sent :=
  ⟨rfl, mr.ttl_pos, mr.ttl_le⟩

theorem Probe.Sent.uchar {p : Probe} (h : p.Sent) : uchar p.icmpSeq = p.ipTtl := by
  obtain ⟨hseq, -, hle⟩ := h
  simp only [MAP_MAX] at hle
  rw [hseq, Map.uchar]
  omega

/-! ## Requests on their path -/

def MapRequest.link (mr : MapRequest) (edge : Nat × Nat) : MapIcmpR :=
  ⟨mr.agent, mr.np, mr.dest, edge.1, edge.2⟩

def Network.Reported (net : Network) (mr : MapRequest) : Prop :=
  mr.reported <+: (net.edges mr.dest).map mr.link

instance (net : Network) (mr : MapRequest) : Decidable (net.Reported mr) :=
  inferInstanceAs (Decidable (_ <+: _))

structure Network.OnPath (net : Network) (mr : MapRequest) : Prop where
  ttl_le : mr.ttl ≤ (net.routers mr.dest).length + 1
  last : (net.getlocalip mr.dest :: net.routers mr.dest)[mr.ttl - 1]? = some mr.last
  reported : mr.reported = ((net.edges mr.dest).take (mr.ttl - 1)).map mr.link

variable {net : Network} {mr : MapRequest} {src : Nat}

theorem Network.OnPath.beginning (h : net.OnPath mr) : net.Reported mr := by
  rw [Network.Reported, h.reported]
  exact (List.take_prefix _ _).map _

/-- The next hop makes the next link. -/
theorem Network.OnPath.next (h : net.OnPath mr)
    (hsrc : (net.routers mr.dest ++ [mr.dest])[mr.ttl - 1]? = some src) :
    mr.reported ++ [mr.link (mr.last, src)] = ((net.edges mr.dest).take mr.ttl).map mr.link := by
  have hedge : (net.edges mr.dest)[mr.ttl - 1]? = some (mr.last, src) :=
    List.getElem?_zip_eq_some.mpr ⟨h.last, hsrc⟩
  have httl : mr.ttl = mr.ttl - 1 + 1 := by
    have := mr.ttl_pos
    omega
  rw [h.reported, httl, List.take_add_one, hedge]
  simp

theorem Network.OnPath.hop (h : net.OnPath mr) (httl : mr.ttl < MAP_MAX)
    (hsrc : (net.routers mr.dest)[mr.ttl - 1]? = some src) :
    net.OnPath (mr.hop src httl) := by
  have hlt := (List.getElem?_eq_some_iff.mp hsrc).1
  have hpos := mr.ttl_pos
  constructor
  case ttl_le =>
    change mr.ttl + 1 ≤ (net.routers mr.dest).length + 1
    omega
  case last =>
    change (net.getlocalip mr.dest :: net.routers mr.dest)[mr.ttl + 1 - 1]? = some src
    rw [show mr.ttl + 1 - 1 = mr.ttl - 1 + 1 by omega, List.getElem?_cons_succ]
    exact hsrc
  case reported =>
    exact h.next (by rw [List.getElem?_append_left hlt]; exact hsrc)

theorem Network.OnPath.probe (h : net.OnPath mr) (now : Int) : net.OnPath (mrProbe now mr).1 :=
  ⟨h.ttl_le, h.last, h.reported⟩

/-- A request that waits for its destination is complete with the last link. -/
theorem Network.OnPath.arrive (h : net.OnPath mr)
    (hlast : (net.routers mr.dest).length < mr.ttl) :
    net.Reported (mapConnect mr mr.last mr.dest) := by
  have hsrc : (net.routers mr.dest ++ [mr.dest])[mr.ttl - 1]? = some mr.dest := by
    have := h.ttl_le
    rw [show mr.ttl - 1 = (net.routers mr.dest).length by omega]
    simp
  change mr.reported ++ [mr.link (mr.last, mr.dest)] <+: _
  rw [h.next hsrc]
  exact (List.take_prefix _ _).map _

/-! ## Whole runs -/

/-- The queued requests are on their paths, what was reported for those removed is right, and
    the probes are as they should be. -/
def Network.Inv (net : Network) (st : MapState) : Prop :=
  All net.OnPath net.Reported Probe.Sent st.mrq st.done

theorem initial_inv : net.Inv initial := ⟨nofun, nofun, nofun⟩

theorem startMapping_inv {st : MapState} {schedId now : Int} {ip agent np : Nat}
    (inv : net.Inv st) : net.Inv (startMapping net.getlocalip schedId now ip agent np st) := by
  unfold startMapping
  dsimp only
  split_ifs
  · exact inv
  · exact inv
  all_goals
    refine All.cons (Network.OnPath.probe ?_ now) (All.probed (sent_mrProbe now _) inv)
    exact ⟨Nat.le_add_left _ _, rfl, rfl⟩

theorem mapTimeout_inv {st : MapState} {current : Int} {clock : Nat → Int} (inv : net.Inv st) :
    net.Inv (mapTimeout current clock st).2 := by
  unfold mapTimeout
  split
  · exact inv
  · exact mapTimeoutLoop_all inv (fun mr now h _ => ⟨h.probe now, sent_mrProbe now mr⟩)
      fun mr h => h.beginning

theorem handleMap_inv {st : MapState} {p : Probe} {buf : Mem} {len : Int} {clock : Nat → Int}
    (inv : net.Inv st) (sent : p ∈ st.done.probes) (answers : net.Answers p src buf len)
    (awaited : ∀ mr ∈ st.mrq, ¬ net.Misled p mr) :
    net.Inv (handleMap buf len src clock st).2 := by
  have hprobe := inv.probes p sent
  have hall : All (fun _ => True) net.Reported Probe.Sent st.mrq st.done :=
    ⟨fun _ _ => trivial, inv.finished, inv.probes⟩
  cases answers with
  | router pos hop exceeded =>
    rw [handleMap_exceeded exceeded]
    have hrouter := (List.getElem?_eq_some_iff.mp hop).1
    refine exceededLoop_all hall (fun mr hmr _ => inv.queued mr hmr) ?_
      fun mr hmr _ _ => (inv.queued mr hmr).beginning
    intro mr hmr hdest httl now
    have hwait : mr.ttl = p.ipTtl := by
      by_contra hne
      exact awaited mr hmr ⟨hdest, hne, by rw [if_pos (by omega)]; exact httl⟩
    rw [← hdest, ← hwait] at hop
    exact ⟨((inv.queued mr hmr).hop httl hop).probe now, sent_mrProbe _ _⟩
  | destination through reply =>
    rw [handleMap_echoReply reply, hprobe.uchar]
    split
    · exact inv
    · refine echoLoop_all hall (fun mr hmr _ => inv.queued mr hmr) ?_
      intro mr hmr hdest
      have hwait : mr.ttl = p.ipTtl := by
        by_contra hne
        exact awaited mr hmr ⟨hdest, hne, by rw [if_neg (by omega)]; omega⟩
      rw [← hdest, ← hwait] at through
      rw [← hdest]
      exact (inv.queued mr hmr).arrive through

theorem Step.inv {st st' : MapState} {label : Label} (hstep : Step net st label st')
    (awaited : net.Awaited st label) (inv : net.Inv st) : net.Inv st' := by
  cases hstep with
  | start => exact startMapping_inv inv
  | timeout => exact mapTimeout_inv inv
  | reply sent answers => exact handleMap_inv inv sent answers awaited

/-- The answer leaves a request that waits for another hop of its path as it was. -/
theorem handleMap_unmoved {st : MapState} {p : Probe} {buf : Mem} {len : Int}
    {clock : Nat → Int} (inv : net.Inv st) (sent : p ∈ st.done.probes)
    (answers : net.Answers p src buf len) (hmr : mr ∈ st.mrq) (hdest : mr.dest = p.ipDst)
    (hwait : mr.ttl ≠ p.ipTtl) (awaited : ¬ net.Misled p mr) :
    mr ∈ (handleMap buf len src clock st).2.mrq ∨
      mr ∈ (handleMap buf len src clock st).2.done.finished := by
  cases answers with
  | router pos hop exceeded =>
    have hrouter := (List.getElem?_eq_some_iff.mp hop).1
    rw [handleMap_exceeded exceeded]
    rcases exceededLoop_mem hmr hdest with ⟨now, httl, -⟩ | ⟨-, hmem⟩
    · exact absurd ⟨hdest, hwait, by rw [if_pos (by omega)]; exact httl⟩ awaited
    · exact .inr hmem
  | destination through reply =>
    rw [handleMap_echoReply reply, (inv.probes p sent).uchar, if_pos]
    · exact .inl hmr
    · by_contra hlt
      exact awaited ⟨hdest, hwait, by rw [if_neg (by omega)]; omega⟩

/-- What is reported, and what the next answers may do. -/
structure Network.Right (net : Network) (st : MapState) : Prop where
  reported : ∀ mr ∈ st.mrq ++ st.done.finished, net.Reported mr
  unmoved : ∀ p src buf len clock st', Step net st (.reply p src buf len clock) st' →
    net.Awaited st (.reply p src buf len clock) →
    ∀ mr ∈ st.mrq, mr.dest = p.ipDst → mr.ttl ≠ p.ipTtl → mr ∈ st'.mrq ++ st'.done.finished

/-- In every run in which no answer misleads a request, between any two steps. -/
theorem links_onPath {history : List Label} {st : MapState}
    (run : Run (Guarded net.Awaited (Step net)) initial history st) : net.Right st := by
  have inv : net.Inv st := run.state_invariant initial_inv
    fun _ _ _ inv hstep => hstep.2.inv hstep.1 inv
  constructor
  case reported =>
    intro mr hmr
    rcases List.mem_append.mp hmr with hmr | hmr
    · exact (inv.queued mr hmr).beginning
    · exact inv.finished mr hmr
  case unmoved =>
    rintro p src buf len clock st' hstep awaited mr hmr hdest hwait
    cases hstep with
    | reply sent answers =>
      exact List.mem_append.mpr
        (handleMap_unmoved inv sent answers hmr hdest hwait (awaited mr hmr))

def exceededPacket (dst seq : UInt8) : Mem := fun i =>
  if i = 0 ∨ i = 28 then 0x45
  else if i = 20 then 11
  else if i = 37 then 1
  else if i = 47 then dst
  else if i = 55 then seq
  else 0

def twoRouters : Network := ⟨fun _ => 9, fun _ => [1, 2]⟩

/-- A run in which the first hop answers. -/
theorem links_onPath_hop :
    ∃ st, st.mrq.map MapRequest.reported = [[⟨7, 8, 3, 9, 1⟩]] ∧ twoRouters.Right st := by
  let st₁ := startMapping twoRouters.getlocalip 5 100 3 7 8 initial
  let st₂ := (handleMap (exceededPacket 3 1) 56 1 (fun _ => 101) st₁).2
  refine ⟨st₂, by decide +kernel, links_onPath (.snoc (.snoc .refl ⟨by exact trivial, .start⟩)
    ⟨?_, .reply (p := ⟨3, 1, 1⟩) (by decide) (.router (by decide) rfl ?_)⟩)⟩
  · intro mr hmr misled
    obtain rfl := List.mem_singleton.mp hmr
    exact misled.2.1 rfl
  · constructor <;> decide +kernel

/-! ## Misled requests -/

/-- An answer that misleads a request is reported as the hop the request waits for. -/
theorem misled_reports {st : MapState} {p : Probe} {buf : Mem} {len : Int}
    {clock : Nat → Int} (sent : p.Sent) (answers : net.Answers p src buf len)
    (hmr : mr ∈ st.mrq) (misled : net.Misled p mr) :
    ∃ mr' ∈ (handleMap buf len src clock st).2.mrq ++
        (handleMap buf len src clock st).2.done.finished,
      mr'.reported = mr.reported ++ [mr.link (mr.last, src)] := by
  obtain ⟨hdest, hwait, hreport⟩ := misled
  cases answers with
  | router pos hop exceeded =>
    have hrouter := (List.getElem?_eq_some_iff.mp hop).1
    rw [if_pos (by omega)] at hreport
    rw [handleMap_exceeded exceeded]
    rcases exceededLoop_mem hmr hdest with ⟨now, httl, hmem⟩ | ⟨hfar, -⟩
    · exact ⟨_, List.mem_append_left _ hmem, rfl⟩
    · exact absurd hreport hfar
  | destination through reply =>
    rw [if_neg (by omega)] at hreport
    rw [handleMap_echoReply reply, sent.uchar, if_neg (by omega)]
    exact ⟨_, List.mem_append_right _ (echoLoop_mem hmr hdest), rfl⟩

/-- The first router's answer comes twice, and is reported as the second hop too. -/
theorem links_wrong :
    ∃ history st, Run (Step twoRouters) initial history st ∧
      twoRouters.edges 3 = [(9, 1), (1, 2), (2, 3)] ∧
      st.mrq.map MapRequest.reported = [[⟨7, 8, 3, 9, 1⟩, ⟨7, 8, 3, 1, 1⟩]] ∧
      ¬ twoRouters.Right st := by
  let st₁ := startMapping twoRouters.getlocalip 5 100 3 7 8 initial
  let st₂ := (handleMap (exceededPacket 3 1) 56 1 (fun _ => 101) st₁).2
  let st₃ := (handleMap (exceededPacket 3 1) 56 1 (fun _ => 101) st₂).2
  have exceeded : Exceeded ⟨3, 1, 1⟩ (exceededPacket 3 1) 56 := by constructor <;> decide +kernel
  have wrong : ∃ mr ∈ st₃.mrq, ¬ twoRouters.Reported mr := by decide +kernel
  refine ⟨_, st₃, .snoc (.snoc (.snoc .refl .start)
    (.reply (by decide) (.router (by decide) rfl exceeded)))
    (.reply (by decide +kernel) (.router (by decide) rfl exceeded)), rfl, by decide +kernel,
    fun right => ?_⟩
  obtain ⟨mr, hmr, hwrong⟩ := wrong
  exact hwrong (right.reported mr (List.mem_append_left _ hmr))

end Cheops.Map
