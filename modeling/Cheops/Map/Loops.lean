import Cheops.Map.Basic

/-! # The loops of `agent-map.c`

One rule for each loop over `mrq`: what the requests that it keeps, those that it removes and
the probes that it sends satisfy.
-/

namespace Cheops.Map

open Cheops.Lib

variable {K F : MapRequest → Prop} {P : Probe → Prop}

/-- The requests that are kept meet `K`, those removed meet `F`, and the probes `P`. -/
structure All (K F : MapRequest → Prop) (P : Probe → Prop) (mrq : List MapRequest) (done : Done) :
    Prop where
  queued : ∀ mr ∈ mrq, K mr
  finished : ∀ mr ∈ done.finished, F mr
  probes : ∀ p ∈ done.probes, P p

theorem All.cons {mr : MapRequest} {mrq : List MapRequest} {done : Done} (hmr : K mr)
    (h : All K F P mrq done) : All K F P (mr :: mrq) done :=
  ⟨List.forall_mem_cons.mpr ⟨hmr, h.queued⟩, h.finished, h.probes⟩

theorem All.tail {mr : MapRequest} {mrq : List MapRequest} {done : Done}
    (h : All K F P (mr :: mrq) done) : All K F P mrq done :=
  ⟨fun x hx => h.queued x (List.mem_cons_of_mem _ hx), h.finished, h.probes⟩

theorem All.removed {mr : MapRequest} {mrq : List MapRequest} {done : Done} (hmr : F mr)
    (h : All K F P mrq done) : All K F P mrq (done.removed mr) :=
  ⟨h.queued, List.forall_mem_cons.mpr ⟨hmr, h.finished⟩, h.probes⟩

theorem All.probed {p : Probe} {mrq : List MapRequest} {done : Done} (hp : P p)
    (h : All K F P mrq done) : All K F P mrq (done.probed p) :=
  ⟨h.queued, h.finished, List.forall_mem_cons.mpr ⟨hp, h.probes⟩⟩

/-- `map_timeout` probes requests again, and removes some. -/
theorem mapTimeoutLoop_all {current : Int} {clock : Nat → Int} {cnt : Nat}
    {mrq : List MapRequest} {done : Done} (h : All K F P mrq done)
    (probe : ∀ mr now, K mr → mr.retries ≤ MAX_MAP_REQUEST_RETRIES →
      K (mrProbe now mr).1 ∧ P (mrProbe now mr).2)
    (remove : ∀ mr, K mr → F mr) :
    All K F P (mapTimeoutLoop current clock cnt mrq done).1
      (mapTimeoutLoop current clock cnt mrq done).2 := by
  fun_induction mapTimeoutLoop current clock cnt mrq done with
  | case1 => exact h
  | case2 => exact h
  | case3 cnt mr rest done _ _ _ ih =>
    exact ih (h.tail.removed (remove mr (h.queued mr (by simp))))
  | case4 cnt mr rest done _ _ retries mr' p heq ih =>
    have hprobe := probe mr (clock cnt) (h.queued mr (by simp)) (Nat.not_lt.mp retries)
    rw [heq] at hprobe
    exact ih ((h.tail.cons hprobe.1).probed hprobe.2)
  | case5 cnt mr rest done _ kept done' heq ih =>
    rw [heq] at ih
    exact (ih h.tail).cons (h.queued mr (by simp))

/-- The loop for `ICMP_TIME_EXCEEDED`: a request for another destination stays as it is, one for
    `dst` gets on, or it is removed. -/
theorem exceededLoop_all {dst src : Nat} {clock : Nat → Int} {mrq : List MapRequest} {done : Done}
    (h : All (fun _ => True) F P mrq done) (stay : ∀ mr ∈ mrq, mr.dest ≠ dst → K mr)
    (hop : ∀ mr ∈ mrq, mr.dest = dst → ∀ (httl : mr.ttl < MAP_MAX) now,
      K (mrProbe now (mr.hop src httl)).1 ∧ P (mrProbe now (mr.hop src httl)).2)
    (remove : ∀ mr ∈ mrq, mr.dest = dst → ¬ mr.ttl < MAP_MAX → F mr) :
    All K F P (exceededLoop dst src clock mrq done).1
      (exceededLoop dst src clock mrq done).2 := by
  fun_induction exceededLoop dst src clock mrq done with
  | case1 done => exact ⟨nofun, h.finished, h.probes⟩
  | case2 mr rest done hdest httl mr' p heq kept done' hrest ih =>
    have hmr := hop mr (by simp) hdest.1 httl (clock rest.length)
    rw [heq] at hmr
    rw [hrest] at ih
    exact (ih (h.tail.probed hmr.2) (fun x hx => stay x (by simp [hx]))
      (fun x hx => hop x (by simp [hx])) (fun x hx => remove x (by simp [hx]))).cons hmr.1
  | case3 mr rest done hdest httl ih =>
    exact ih (h.tail.removed (remove mr (by simp) hdest.1 httl))
      (fun x hx => stay x (by simp [hx])) (fun x hx => hop x (by simp [hx]))
      (fun x hx => remove x (by simp [hx]))
  | case4 mr rest done hdest kept done' hrest ih =>
    have hother : mr.dest ≠ dst := fun heq => hdest ⟨heq, Nat.ne_of_gt mr.ttl_pos⟩
    rw [hrest] at ih
    exact (ih h.tail (fun x hx => stay x (by simp [hx])) (fun x hx => hop x (by simp [hx]))
      (fun x hx => remove x (by simp [hx]))).cons (stay mr (by simp) hother)

/-- The loop for `ICMP_ECHOREPLY`. -/
theorem echoLoop_all {src : Nat} {mrq : List MapRequest} {ret : Bool} {done : Done}
    (h : All (fun _ => True) F P mrq done) (stay : ∀ mr ∈ mrq, mr.dest ≠ src → K mr)
    (arrive : ∀ mr ∈ mrq, mr.dest = src → F (mapConnect mr mr.last src)) :
    All K F P (echoLoop src mrq ret done).2.1 (echoLoop src mrq ret done).2.2 := by
  fun_induction echoLoop src mrq ret done with
  | case1 ret done => exact ⟨nofun, h.finished, h.probes⟩
  | case2 mr rest ret done hdest ih =>
    exact ih (h.tail.removed (arrive mr (by simp) hdest.1)) (fun x hx => stay x (by simp [hx]))
      (fun x hx => arrive x (by simp [hx]))
  | case3 mr rest ret done hdest ret' kept done' hrest ih =>
    have hother : mr.dest ≠ src := fun heq => hdest ⟨heq, Nat.ne_of_gt mr.ttl_pos⟩
    rw [hrest] at ih
    exact (ih h.tail (fun x hx => stay x (by simp [hx]))
      (fun x hx => arrive x (by simp [hx]))).cons (stay mr (by simp) hother)

/-! ## Where a request goes -/

theorem exceededLoop_finished (dst src : Nat) (clock : Nat → Int) (mrq : List MapRequest)
    (done : Done) : done.finished ⊆ (exceededLoop dst src clock mrq done).2.finished := by
  fun_induction exceededLoop dst src clock mrq done with
  | case1 done => exact fun _ => id
  | case2 mr rest done hdest httl mr' p heq kept done' hrest ih =>
    rw [hrest] at ih
    exact ih
  | case3 mr rest done hdest httl ih => exact fun x hx => ih (List.mem_cons_of_mem _ hx)
  | case4 mr rest done hdest kept done' hrest ih =>
    rw [hrest] at ih
    exact ih

/-- A request for `dst` gets on to the next hop, or it is removed unchanged. -/
theorem exceededLoop_mem {dst src : Nat} {clock : Nat → Int} {mrq : List MapRequest} {done : Done}
    {mr : MapRequest} (hmr : mr ∈ mrq) (hdst : mr.dest = dst) :
    (∃ now httl, (mrProbe now (mr.hop src httl)).1 ∈ (exceededLoop dst src clock mrq done).1) ∨
      ¬ mr.ttl < MAP_MAX ∧ mr ∈ (exceededLoop dst src clock mrq done).2.finished := by
  fun_induction exceededLoop dst src clock mrq done with
  | case1 => cases hmr
  | case2 x rest done hdest httl x' p heq kept done' hrest ih =>
    rw [hrest] at ih
    rcases List.mem_cons.mp hmr with rfl | hmr
    · exact .inl ⟨clock rest.length, httl, by simp [heq]⟩
    · exact (ih hmr).imp_left fun ⟨now, h, hmem⟩ => ⟨now, h, List.mem_cons_of_mem _ hmem⟩
  | case3 x rest done hdest httl ih =>
    rcases List.mem_cons.mp hmr with rfl | hmr
    · exact .inr ⟨httl, exceededLoop_finished _ _ _ _ _ (by simp [Done.removed])⟩
    · exact ih hmr
  | case4 x rest done hdest kept done' hrest ih =>
    rw [hrest] at ih
    rcases List.mem_cons.mp hmr with rfl | hmr
    · exact absurd ⟨hdst, Nat.ne_of_gt mr.ttl_pos⟩ hdest
    · exact (ih hmr).imp_left fun ⟨now, h, hmem⟩ => ⟨now, h, List.mem_cons_of_mem _ hmem⟩

theorem echoLoop_finished (src : Nat) (mrq : List MapRequest) (ret : Bool) (done : Done) :
    done.finished ⊆ (echoLoop src mrq ret done).2.2.finished := by
  fun_induction echoLoop src mrq ret done with
  | case1 ret done => exact fun _ => id
  | case2 mr rest ret done hdest ih => exact fun x hx => ih (List.mem_cons_of_mem _ hx)
  | case3 mr rest ret done hdest ret' kept done' hrest ih =>
    rw [hrest] at ih
    exact ih

/-- A request for `src` is removed with the link to it. -/
theorem echoLoop_mem {src : Nat} {mrq : List MapRequest} {ret : Bool} {done : Done}
    {mr : MapRequest} (hmr : mr ∈ mrq) (hdst : mr.dest = src) :
    mapConnect mr mr.last src ∈ (echoLoop src mrq ret done).2.2.finished := by
  fun_induction echoLoop src mrq ret done with
  | case1 => cases hmr
  | case2 x rest ret done hdest ih =>
    rcases List.mem_cons.mp hmr with rfl | hmr
    · exact echoLoop_finished _ _ _ _ (by simp [Done.removed])
    · exact ih hmr
  | case3 x rest ret done hdest ret' kept done' hrest ih =>
    rw [hrest] at ih
    rcases List.mem_cons.mp hmr with rfl | hmr
    · exact absurd ⟨hdst, Nat.ne_of_gt mr.ttl_pos⟩ hdest
    · exact ih hmr

end Cheops.Map
