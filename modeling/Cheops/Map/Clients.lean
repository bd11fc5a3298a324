import Cheops.Map.Timer

/-! # Mapping requests of several clients

A client names its requests by a destination and a page, and the page is a pointer of its own
process.  `start_mapping` compares these two with the whole queue, so a request is dropped when
another connection has the same pair in it (`startMapping_registers_iff`).
-/

namespace Cheops.Map

open Cheops.Lib
open Cheops.Scheduler (Timeval)

variable {κ : Type}

/-! ## Requests by client -/

/-- What makes two requests the same for `start_mapping`. -/
def MapRequest.key (mr : MapRequest) : Nat × Nat := (mr.dest, mr.np)

def MapRequest.client (mr : MapRequest) : Nat × Nat × Nat := (mr.dest, mr.np, mr.agent)

def requestsOf (client : Nat × Nat × Nat) (mrq : List MapRequest) : List MapRequest :=
  mrq.filter (·.client = client)

def requestsOfOthers (client : Nat × Nat × Nat) (mrq : List MapRequest) : List MapRequest :=
  mrq.filter (·.client ≠ client)

/-- The queue `mrq'` has exactly one request of the client, the one that `mrq` has or a new one,
    and nothing else has changed. -/
structure Registers (client : Nat × Nat × Nat) (mrq mrq' : List MapRequest) : Prop where
  own : ∃ mr, requestsOf client mrq' = [mr] ∧
    (requestsOf client mrq = [mr] ∨ requestsOf client mrq = [] ∧ mr.ttl = 1)
  others : requestsOfOthers client mrq' = requestsOfOthers client mrq

/-! ## No pair is queued twice -/

def keys (mrq : List MapRequest) : List (Nat × Nat) := mrq.map MapRequest.key

theorem mapTimeoutLoop_keys (current : Int) (clock : Nat → Int) (cnt : Nat) (mrq : List MapRequest)
    (done : Done) : (keys (mapTimeoutLoop current clock cnt mrq done).1).Sublist (keys mrq) := by
  fun_induction mapTimeoutLoop current clock cnt mrq done with
  | case1 => exact .refl _
  | case2 => exact .refl _
  | case3 cnt mr rest done _ _ _ ih => exact ih.trans (List.sublist_cons_self _ _)
  | case4 cnt mr rest done _ _ _ mr' p probed ih =>
    have same : mr'.key = mr.key := by
      obtain ⟨rfl, -⟩ := Prod.mk.inj probed
      rfl
    simpa only [keys, List.map_cons, same] using ih
  | case5 cnt mr rest done _ kept done' loop ih =>
    rw [loop] at ih
    exact ih.cons_cons mr.key

theorem exceededLoop_keys (dst src : Nat) (clock : Nat → Int) (mrq : List MapRequest)
    (done : Done) : (keys (exceededLoop dst src clock mrq done).1).Sublist (keys mrq) := by
  fun_induction exceededLoop dst src clock mrq done with
  | case1 => exact .refl _
  | case2 mr rest done _ further mr' p probed kept done' loop ih =>
    have same : mr'.key = mr.key := by
      obtain ⟨rfl, -⟩ := Prod.mk.inj probed
      rfl
    rw [loop] at ih
    simpa only [keys, List.map_cons, same] using ih.cons_cons mr.key
  | case3 mr rest done _ _ ih => exact ih.trans (List.sublist_cons_self _ _)
  | case4 mr rest done _ kept done' loop ih =>
    rw [loop] at ih
    exact ih.cons_cons mr.key

theorem echoLoop_keys (src : Nat) (mrq : List MapRequest) (ret : Bool) (done : Done) :
    (keys (echoLoop src mrq ret done).2.1).Sublist (keys mrq) := by
  fun_induction echoLoop src mrq ret done with
  | case1 => exact .refl _
  | case2 mr rest ret done _ ih => exact ih.trans (List.sublist_cons_self _ _)
  | case3 mr rest ret done _ ret' kept done' loop ih =>
    rw [loop] at ih
    exact ih.cons_cons mr.key

theorem mapTimeout_keys (current : Int) (clock : Nat → Int) (st : MapState) :
    (keys (mapTimeout current clock st).2.mrq).Sublist (keys st.mrq) := by
  unfold mapTimeout
  split
  · exact .refl _
  · exact mapTimeoutLoop_keys _ _ _ _ _

theorem handleMap_keys (buf : Mem) (len : Int) (src : Nat) (clock : Nat → Int) (st : MapState) :
    (keys (handleMap buf len src clock st).2.mrq).Sublist (keys st.mrq) := by
  have lastHop (off : Nat) (len : Int) :
      (keys (handleLastHop buf off len src st).2.mrq).Sublist (keys st.mrq) := by
    unfold handleLastHop
    dsimp only
    generalize uchar _ = ttl
    split_ifs
    · exact .refl _
    · exact .refl _
    · exact echoLoop_keys _ _ _ _
  unfold handleMap
  dsimp only
  split_ifs
  · exact .refl _
  · exact exceededLoop_keys _ _ _ _ _
  · exact .refl _
  · exact lastHop _ _
  · exact lastHop _ _
  · exact .refl _

/-- The pair is queued already. -/
theorem any_iff {ip np : Nat} {mrq : List MapRequest} :
    (mrq.any fun mr => mr.dest == ip && np == mr.np) = true ↔ (ip, np) ∈ keys mrq := by
  constructor
  · intro found
    obtain ⟨mr, queued, same⟩ := List.any_eq_true.mp found
    simp only [Bool.and_eq_true, beq_iff_eq] at same
    exact List.mem_map.mpr ⟨mr, queued, Prod.ext same.1 same.2.symm⟩
  · intro listed
    obtain ⟨mr, queued, key⟩ := List.mem_map.mp listed
    obtain ⟨dest, page⟩ := Prod.mk.inj key
    exact List.any_eq_true.mpr ⟨mr, queued, by simp [dest, page]⟩

theorem startMapping_accepted {getlocalip : Nat → Nat} {ip np : Nat} {st : MapState}
    (schedId now : Int) (agent : Nat) (accepted : Accepted getlocalip ip np st) :
    ∃ mr : MapRequest, mr.client = (ip, np, agent) ∧ mr.ttl = 1 ∧
      (startMapping getlocalip schedId now ip agent np st).mrq = mr :: st.mrq := by
  unfold startMapping
  rw [if_neg accepted.1, if_neg accepted.2]
  exact ⟨_, rfl, rfl, rfl⟩

theorem startMapping_keys {getlocalip : Nat → Nat} {schedId now : Int} {ip agent np : Nat}
    {st : MapState} (nodup : (keys st.mrq).Nodup) :
    (keys (startMapping getlocalip schedId now ip agent np st).mrq).Nodup := by
  by_cases accepted : Accepted getlocalip ip np st
  case pos =>
    obtain ⟨mr, client, -, queued⟩ :=
      startMapping_accepted schedId now agent accepted
    have key : mr.key = (ip, np) := by
      simp only [MapRequest.client, Prod.mk.injEq] at client
      simp [MapRequest.key, client]
    rw [queued, keys, List.map_cons, key]
    exact nodup.cons fun listed => accepted.2 (any_iff.mpr listed)
  case neg =>
    rw [startMapping_rejected accepted]
    exact nodup

theorem start_map (getlocalip : Nat → Nat) (ip agent np : Nat) (now : Int) (block : Option Nat)
    (clock : Option Timeval) (w : World κ) : ∃ schedId,
      (w.start getlocalip ip agent np now block clock).map =
        startMapping getlocalip schedId now ip agent np w.map := by
  unfold World.start
  split
  · exact ⟨_, rfl⟩
  · exact ⟨0, rfl⟩

theorem Transition.keys {w w' : World κ} {event : Event κ} (step : Transition w event w')
    (nodup : (keys w.map.mrq).Nodup) : (Map.keys w'.map.mrq).Nodup := by
  cases step with
  | @start getlocalip ip agent np now block clock fresh =>
    obtain ⟨schedId, started⟩ := start_map getlocalip ip agent np now block clock w
    rw [started]
    exact startMapping_keys nodup
  | packet => exact nodup.sublist (handleMap_keys _ _ _ _ _)
  | tick idle taken timer => exact nodup.sublist (mapTimeout_keys _ _ _)
  | sched others step running => exact nodup

/-- In every run no pair of a destination and a page is queued twice. -/
theorem run_keys {history : List (Event κ)} {w : World κ}
    (run : Run Transition World.initial history w) : (keys w.map.mrq).Nodup := by
  apply run.state_invariant (I := fun w => (keys w.map.mrq).Nodup)
  · exact List.nodup_nil
  · exact fun _ _ _ nodup step => step.keys nodup

/-! ## Whose request it is -/

section
variable {ip agent np : Nat} {mrq : List MapRequest} {mr : MapRequest}

theorem requestsOf_eq_nil (fresh : (ip, np) ∉ keys mrq) : requestsOf (ip, np, agent) mrq = [] := by
  apply List.filter_eq_nil_iff.mpr
  intro mr queued same
  obtain ⟨dest, page⟩ := Prod.mk.inj (of_decide_eq_true same)
  exact fresh (List.mem_map.mpr ⟨mr, queued, Prod.ext dest (Prod.mk.inj page).1⟩)

/-- A request of the client is the only one. -/
theorem requestsOf_eq_singleton (nodup : (keys mrq).Nodup) (queued : mr ∈ mrq)
    (client : mr.client = (ip, np, agent)) : requestsOf (ip, np, agent) mrq = [mr] := by
  have only : ∀ x ∈ requestsOf (ip, np, agent) mrq, x = mr := by
    intro x member
    obtain ⟨listed, same⟩ := List.mem_filter.mp member
    have same := (of_decide_eq_true same).trans client.symm
    apply List.inj_on_of_nodup_map nodup listed queued
    simp only [MapRequest.client, Prod.mk.injEq] at same
    exact Prod.ext same.1 same.2.1
  have distinct : (requestsOf (ip, np, agent) mrq).Nodup :=
    (List.Nodup.of_map _ nodup).filter _
  have member : mr ∈ requestsOf (ip, np, agent) mrq :=
    List.mem_filter.mpr ⟨queued, decide_eq_true client⟩
  obtain ⟨l, found⟩ : ∃ l, requestsOf (ip, np, agent) mrq = l := ⟨_, rfl⟩
  rw [found] at only distinct member ⊢
  cases l with
  | nil => cases member
  | cons x rest =>
    obtain rfl := only x (by simp)
    cases rest with
    | nil => rfl
    | cons y rest =>
      obtain rfl := only y (by simp)
      simp at distinct

end

/-- In every run, the request of a client is registered unless another connection has the same
    destination and page in the queue. -/
theorem startMapping_registers_iff {history : List (Event κ)} {w w' : World κ}
    {getlocalip : Nat → Nat} {ip agent np : Nat} {now : Int} {block : Option Nat}
    {clock : Option Timeval} (run : Run Transition World.initial history w)
    (foreign : getlocalip ip ≠ ip)
    (step : Transition w (.start getlocalip ip agent np now block clock) w') :
    Registers (ip, np, agent) w.map.mrq w'.map.mrq ↔
      ∀ mr ∈ w.map.mrq, mr.dest = ip → mr.np = np → mr.agent = agent := by
  have nodup := run_keys run
  cases step with
  | start fresh =>
    obtain ⟨schedId, started⟩ := start_map getlocalip ip agent np now block clock w
    rw [started]
    by_cases queued : (ip, np) ∈ keys w.map.mrq
    case neg =>
      have accepted : Accepted getlocalip ip np w.map :=
        ⟨foreign, fun any => queued (any_iff.mp any)⟩
      obtain ⟨mr, client, ttl, after⟩ := startMapping_accepted schedId now agent accepted
      have none : requestsOf (ip, np, agent) w.map.mrq = [] := requestsOf_eq_nil queued
      rw [after]
      refine iff_of_true ⟨⟨mr, ?_, .inr ⟨none, ttl⟩⟩, ?_⟩ ?_
      · rw [requestsOf, List.filter_cons_of_pos (by simpa using client)]
        exact congrArg _ none
      · exact List.filter_cons_of_neg (by simpa using client)
      · intro mr listed dest page
        exact absurd (List.mem_map.mpr ⟨mr, listed, Prod.ext dest page⟩) queued
    case pos =>
      have rejected : ¬ Accepted getlocalip ip np w.map := fun h => h.2 (any_iff.mpr queued)
      rw [startMapping_rejected rejected]
      obtain ⟨mr, listed, key⟩ := List.mem_map.mp queued
      obtain ⟨dest, page⟩ := Prod.mk.inj key
      constructor
      · rintro ⟨⟨own, only, -⟩, -⟩ x listed' dest' page'
        have member : own ∈ requestsOf (ip, np, agent) w.map.mrq := by simp [only]
        obtain ⟨listed'', client⟩ := List.mem_filter.mp member
        have client := of_decide_eq_true client
        simp only [MapRequest.client, Prod.mk.injEq] at client
        have same : x = own := by
          apply List.inj_on_of_nodup_map nodup listed' listed''
          exact Prod.ext (dest'.trans client.1.symm) (page'.trans client.2.1.symm)
        rw [same]
        exact client.2.2
      · intro owner
        have client : mr.client = (ip, np, agent) :=
          Prod.ext dest (Prod.ext page (owner mr listed dest page))
        have only := requestsOf_eq_singleton nodup listed client
        exact ⟨⟨mr, only, .inl only⟩, rfl⟩

def oneInterface : Nat → Nat := fun _ => 1

def asked (a : Nat) : World Unit :=
  World.initial.start oneInterface 9 a 5 0 (some 1) (some ⟨0, 0⟩)

theorem asked_run (a : Nat) :
    Run Transition World.initial [.start oneInterface 9 a 5 0 (some 1) (some ⟨0, 0⟩)] (asked a) :=
  .snoc .refl (.start (by decide))

/-- The same connection asks for another page. -/
theorem startMapping_registers_page :
    Registers (9, 6, 1) (asked 1).map.mrq
      ((asked 1).start oneInterface 9 1 6 0 none none).map.mrq :=
  (startMapping_registers_iff (asked_run 1) (by decide) (.start (fun _ none => by cases none))).mpr
    (by decide)

/-- Another connection asks for the same destination, and its page is at the same address. -/
theorem startMapping_dropped :
    Run Transition World.initial [.start oneInterface 9 1 5 0 (some 1) (some ⟨0, 0⟩)] (asked 1) ∧
      ¬ Registers (9, 5, 2) (asked 1).map.mrq
        ((asked 1).start oneInterface 9 2 5 0 none none).map.mrq := by
  refine ⟨asked_run 1, fun registers => ?_⟩
  obtain ⟨mr, own, -⟩ := registers.own
  have none :
      requestsOf (9, 5, 2) ((asked 1).start oneInterface 9 2 5 0 none none).map.mrq = [] := by
    decide
  rw [none] at own
  cases own

end Cheops.Map
