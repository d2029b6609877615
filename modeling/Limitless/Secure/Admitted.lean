import Limitless.Secure.Reconciliation

/-!
# What is admitted is what was asked and what is billed

A request reads a tenant from its credential and names from its body, and goes on with these: what
it works on, and what it sends to the provider, is what it asked for (`Task.Asked`). So a `201`
admits as many records as names were asked for, for the tenant that asked, and once the request has
ended the provider has billed that tenant for as many lookups (`admitted_billed`).
-/

namespace Limitless

open Indexed Runs

/-! ## What a request asks for -/

/-- The names of an input that was read. -/
def Payload.names? : Payload → Option (List String)
  | enrich (.ok names) | importBundle (.ok names) _ => some names
  | enrich (.error _) | importBundle (.error _) _ | listRecords _ => none

/-- The request asks for these lookups, for the tenant it comes from. -/
structure Request.Asks (q : Request) (payload : LookupRequest) : Prop where
  principal : q.principal = some payload.tenantId
  names : q.payload.names? = some payload.items

/-- The work of a request, at a point. -/
def Pc.work? : Pc → Option Work
  | takingConnection w | reserving w | leavingConnection w _ | calling w _ _ | finishing w _ _ _
  | handling w _ _ _ _ | recording w _ _ _ _ => some w
  | authenticating | reading _ | listing _ _ _ | ended _ => none

/-- A request works on what it asked for, and has sent nothing else. -/
structure Task.Asked (t : Task) : Prop where
  reads : ∀ u, t.pc = .reading u → t.request.principal = some u
  works : ∀ w, t.pc.work? = some w → t.request.Asks w.lookupRequest
  sends : ∀ payload, .sent payload ∈ t.trail → t.request.Asks payload

variable {cfg : Config} {s s' : Service} {t t' : Task}

theorem Pc.work_of_frame {pc : Pc} {w : Work} {r : Reservation} (h : pc.frame? = some (w, r)) :
    pc.work? = some w := by
  cases pc with
  | calling | finishing => cases h; rfl
  | _ => cases h

namespace Task.Asked

/-- Going on with the same work, and sending nothing but it. -/
theorem keep (h : t.Asked) (hrequest : t'.request = t.request) (hpc : ∀ u, t'.pc ≠ .reading u)
    (hworks : ∀ w, t'.pc.work? = some w → t.pc.work? = some w)
    (hsends : ∀ payload, .sent payload ∈ t'.trail →
      .sent payload ∈ t.trail ∨ ∃ w, t.pc.work? = some w ∧ payload = w.lookupRequest) :
    t'.Asked := by
  refine ⟨fun u hu => absurd hu (hpc u), fun w hw => ?_, fun payload hmem => ?_⟩
  · rw [hrequest]
    exact h.works w (hworks w hw)
  · rw [hrequest]
    rcases hsends payload hmem with hold | ⟨w, hw, rfl⟩
    exacts [h.sends payload hold, h.works w hw]

theorem goto {pc : Pc} (h : t.Asked) (hpc : ∀ u, pc ≠ .reading u)
    (hworks : ∀ w, pc.work? = some w → t.pc.work? = some w) : (t.goto pc).Asked :=
  h.keep rfl hpc hworks fun _ hmem => .inl hmem

theorem did {e : Effect} {pc : Pc} (h : t.Asked) (hpc : ∀ u, pc ≠ .reading u)
    (hworks : ∀ w, pc.work? = some w → t.pc.work? = some w)
    (he : ∀ payload, e = .sent payload → ∃ w, t.pc.work? = some w ∧ payload = w.lookupRequest) :
    (t.did e pc).Asked := by
  refine h.keep rfl hpc hworks fun payload hmem => ?_
  rcases List.mem_append.mp hmem with hmem | hmem
  · exact .inl hmem
  · exact .inr (he payload (List.mem_singleton.mp hmem).symm)

theorem call (h : t.Asked) (call : Option Call) : Task.Asked { t with call := call } :=
  ⟨h.reads, h.works, h.sends⟩

theorem raise (h : t.Asked) (s : Service) (exc : Exception) : (t.raise s exc).2.Asked := by
  refine h.keep rfl (fun u hu => ?_) (fun w hw => ?_) fun payload hmem => .inl ?_
  · simp only [Task.raise] at hu
    split at hu <;> cases hu
  · simp only [Task.raise] at hw
    split at hw
    · next w' r hframe =>
        cases hw
        exact Pc.work_of_frame hframe
    · cases hw
  · simp only [Task.raise] at hmem
    split at hmem
    · simpa using hmem
    · exact hmem

/-- Reading the input makes the work of it. -/
theorem read {u : TenantId} (h : t.Asked) (hpc : t.pc = .reading u) :
    (t.read cfg s u).2.Asked := by
  have hwork : ∀ {names : List String} {job : Option JobId}, t.request.payload.names? = some names →
      (t.goto (.takingConnection ⟨u, names, job⟩)).Asked := by
    intro names job hnames
    refine ⟨fun v hv => absurd hv (by simp [Task.goto]), fun w hw => ?_, h.sends⟩
    cases hw
    exact ⟨h.reads u hpc, hnames⟩
  unfold Task.read
  split
  · next names hpayload =>
      split
      · exact h.raise _ _
      · exact hwork (by rw [hpayload]; rfl)
  · next names jobId hpayload => exact hwork (by rw [hpayload]; rfl)
  · exact h.goto (by simp) (by simp [Pc.work?])
  all_goals exact h.raise _ _

/-- The points after a point have its work, or none. -/
theorem works_of {pc : Pc} {w : Work} (hpc : t.pc.work? = some w)
    (h : pc.work? = some w ∨ pc.work? = none) :
    ∀ w', pc.work? = some w' → t.pc.work? = some w' := by
  intro w' hw'
  rcases h with h | h
  · exact hpc.trans (h.symm.trans hw')
  · rw [h] at hw'
    cases hw'

theorem reserve {w : Work} (hpc : t.pc = .reserving w) (h : t.Asked) :
    (t.reserve cfg s w).2.Asked := by
  have hwork : t.pc.work? = some w := by rw [hpc]; rfl
  unfold Task.reserve
  split
  · exact h.did (by simp) (works_of hwork (.inl rfl)) (by simp)
  all_goals exact h.raise _ _

theorem lookUp {w : Work} {r : Reservation} {p : CallPoint} (hpc : t.pc = .calling w r p)
    (h : t.Asked) (hstep : t.lookUp s w r p = some (s', t')) : t'.Asked := by
  have hwork : t.pc.work? = some w := by rw [hpc]; rfl
  cases p with
  | enterRequestDeadline | enterUpstreamDeadline =>
      cases hstep
      exact h.goto (by simp) (works_of hwork (.inl rfl))
  | enterSlot =>
      simp only [Task.lookUp] at hstep
      split at hstep
      · cases hstep
      · split at hstep
        · cases hstep
          exact h.raise s _
        · cases hstep
          exact h.did (by simp) (works_of hwork (.inl rfl)) (by simp)
  | send =>
      cases hstep
      refine (h.did (by simp) (works_of hwork (.inl rfl)) fun payload hsent => ?_).call _
      cases hsent
      exact ⟨w, hwork, rfl⟩
  | awaitResponse =>
      simp only [Task.lookUp] at hstep
      split at hstep
      · cases hstep
        exact h.goto (by simp) (works_of hwork (.inl rfl))
      · cases hstep

theorem finish {w : Work} {r : Reservation} {result : LookupResponse} {p : FinishPoint}
    (hpc : t.pc = .finishing w r result p) (h : t.Asked) :
    (t.finish cfg s w r result p).2.Asked := by
  have hwork : t.pc.work? = some w := by rw [hpc]; rfl
  cases p with
  | leaveUpstreamDeadline | leaveRequestDeadline | buildRecords | takeConnection =>
      exact h.goto (by simp) (works_of hwork (.inl rfl))
  | leaveSlot | upsertRecords => exact h.did (by simp) (works_of hwork (.inl rfl)) (by simp)
  | settle =>
      simp only [Task.finish]
      split
      · exact h.raise _ _
      · exact h.did (by simp) (works_of hwork (.inl rfl)) (by simp)
  | leaveConnection =>
      simp only [Task.finish]
      split
      · exact h.goto (by simp) (works_of hwork (.inr rfl))
      · exact h.goto (by simp) (works_of hwork (.inl rfl))

theorem handle {w : Work} {r : Reservation} {attempted : Bool} {exc : Exception} {p : HandlerPoint}
    (hpc : t.pc = .handling w r attempted exc p) (h : t.Asked) :
    (t.handle s w r attempted exc p).2.Asked := by
  have hwork : t.pc.work? = some w := by rw [hpc]; rfl
  cases p with
  | takeConnection => exact h.goto (by simp) (works_of hwork (.inl rfl))
  | leaveConnection => exact h.goto (by simp) (works_of hwork (.inr rfl))
  | close =>
      simp only [Task.handle]
      split <;> split
      all_goals
        first
        | exact h.raise _ _
        | exact h.did (by simp) (works_of hwork (.inl rfl)) (by simp)

theorem record {w : Work} {r : Reservation} {result : LookupResponse} {jobId : JobId}
    {p : JobPoint} (hpc : t.pc = .recording w r result jobId p) (h : t.Asked) :
    (t.record cfg s w r result jobId p).2.Asked := by
  have hwork : t.pc.work? = some w := by rw [hpc]; rfl
  cases p with
  | takeConnection => exact h.goto (by simp) (works_of hwork (.inl rfl))
  | leaveConnection => exact h.goto (by simp) (works_of hwork (.inr rfl))
  | insertJob =>
      simp only [Task.record]
      split
      · exact h.raise _ _
      · exact h.did (by simp) (works_of hwork (.inl rfl)) (by simp)

theorem list {u : TenantId} {pageSize : Nat} {p : ListPoint} (h : t.Asked) :
    (t.list s u pageSize p).2.Asked := by
  cases p with
  | takeConnection | readRecords | leaveConnection => exact h.goto (by simp) (by simp [Pc.work?])

/-- A step of a request. -/
theorem advance (h : t.Asked) (hstep : t.advance cfg s = some (s', t')) : t'.Asked := by
  unfold Task.advance at hstep
  split at hstep
  · next hpc =>
      split at hstep
      · cases hstep
        exact h.raise s _
      · next u hu =>
          cases hstep
          refine ⟨fun v hv => ?_, fun w hw => absurd hw (by simp [Task.goto, Pc.work?]), h.sends⟩
          cases hv
          exact hu
  · next hpc =>
      obtain rfl := (Prod.mk.inj (Option.some.inj hstep)).2
      exact h.read hpc
  · next w hpc =>
      cases hstep
      exact h.goto (by simp) (works_of (by rw [hpc]; rfl) (.inl rfl))
  · next hpc =>
      obtain rfl := (Prod.mk.inj (Option.some.inj hstep)).2
      exact h.reserve hpc
  · next w r hpc =>
      cases hstep
      exact h.goto (by simp) (works_of (by rw [hpc]; rfl) (.inl rfl))
  · next hpc => exact h.lookUp hpc hstep
  · next hpc =>
      obtain rfl := (Prod.mk.inj (Option.some.inj hstep)).2
      exact h.finish hpc
  · next hpc =>
      obtain rfl := (Prod.mk.inj (Option.some.inj hstep)).2
      exact h.handle hpc
  · next hpc =>
      obtain rfl := (Prod.mk.inj (Option.some.inj hstep)).2
      exact h.record hpc
  · next hpc =>
      obtain rfl := (Prod.mk.inj (Option.some.inj hstep)).2
      exact h.list
  · cases hstep

theorem fault {f : Fault} (h : t.Asked) (hstep : t.fault s f = some (s', t')) : t'.Asked := by
  unfold Task.fault at hstep
  split at hstep
  · cases hstep
  · split at hstep
    · cases hstep
      exact h.raise s _
    · cases hstep
      exact h.raise s _
    · split at hstep
      · cases hstep
        exact h.raise s _
      · cases hstep

end Task.Asked

/-! ## In a run -/

variable {w w' : World} {e : Event}

/-- **Step lemma.** Whatever happens, every request works on what it asked for. -/
theorem World.asked_step (h : ∀ t ∈ w.tasks, t.Asked) (hstep : w.next cfg e = some w') :
    ∀ t ∈ w'.tasks, t.Asked := by
  cases moves_of_next hstep with
  | arrived =>
      refine forall_mem_concat h ⟨?_, ?_, ?_⟩
      · simp [Task.arrived]
      · simp [Task.arrived, Pc.work?]
      · simp [Task.arrived]
  | advanced hi hadvance =>
      exact forall_mem_set ((h _ (List.mem_of_getElem? hi)).advance hadvance) h
  | struck hi hfault => exact forall_mem_set ((h _ (List.mem_of_getElem? hi)).fault hfault) h
  | served _ hi => exact forall_mem_set ((h _ (List.mem_of_getElem? hi)).call _) h
  | woke => exact List.forall_mem_map.mpr fun t ht => (h t ht).call _
  | reset | quiet => exact h

/-- **Run lemma.** So it is in every run. -/
theorem World.run_asked {es : List Event} (h : ∀ t ∈ w.tasks, t.Asked)
    (hrun : Run (Steps (World.next cfg)) w es w') : ∀ t ∈ w'.tasks, t.Asked :=
  hrun.invariant (I := fun x => ∀ t ∈ x.tasks, t.Asked)
    (fun _ _ _ h hstep => World.asked_step h hstep) h

/-- A request that has ended stays as it ended. -/
theorem World.ended_stays {es : List Event} {i : Nat} {ending : Ending}
    (hrun : Run (Steps (World.next cfg)) w es w') (hi : w.tasks[i]? = some t)
    (hpc : t.pc = .ended ending) :
    ∃ t', w'.tasks[i]? = some t' ∧ t'.pc = .ended ending ∧ t'.request = t.request := by
  refine hrun.invariant (I := fun x => ∃ t', x.tasks[i]? = some t' ∧ t'.pc = .ended ending ∧
    t'.request = t.request) ?_ ⟨t, hi, hpc, rfl⟩
  rintro a e b ⟨u, hu, hended, hrequest⟩ hstep
  have hset : ∀ {j : Nat} {v v' : Task}, a.tasks[j]? = some v →
      (v.pc = .ended ending → v'.pc = .ended ending ∧ v'.request = v.request) →
      ∃ t', (a.tasks.set j v')[i]? = some t' ∧ t'.pc = .ended ending ∧
        t'.request = t.request := by
    intro j v v' hj hkeep
    refine exists_getElem?_set (P := fun x => x.pc = .ended ending ∧ x.request = t.request) hu
      ⟨hended, hrequest⟩ hj fun hv => ?_
    exact ⟨(hkeep hv.1).1, (hkeep hv.1).2.trans hv.2⟩
  cases moves_of_next hstep with
  | arrived =>
      have hlt := (List.getElem?_eq_some_iff.mp hu).1
      exact ⟨u, (List.getElem?_append_left hlt).trans hu, hended, hrequest⟩
  | advanced hj hadvance =>
      refine hset hj fun hv => ?_
      simp [Task.advance, hv] at hadvance
  | struck hj hfault =>
      refine hset hj fun hv => ?_
      simp [Task.fault, hv, Pc.isEnded] at hfault
  | served _ hj => exact hset hj fun hv => ⟨hv, rfl⟩
  | woke => exact ⟨{ u with call := u.call.map Call.wake }, by simp [hu], hended, hrequest⟩
  | reset | quiet => exact ⟨u, hu, hended, hrequest⟩

/-! ## What is admitted -/

/-- The records that the response of a request says it admitted for a tenant. -/
def Task.admitted (t : Task) (u : TenantId) : Int :=
  match t.pc with
  | .ended ending => ending.admission?.elim 0 fun a => if u = a.1 then a.2 else 0
  | _ => 0

/-- A `201` admits the names that were asked for, and its lookup call has been answered. -/
theorem Task.Asked.admission {ending : Ending} {u : TenantId} {n : Nat} (hs : t.Sound cfg)
    (hasked : t.Asked) (hpc : t.pc = .ended ending) (hadmission : ending.admission? = some (u, n)) :
    t.request.principal = some u ∧ (∃ names, t.request.payload.names? = some names ∧
      n = names.length) ∧ ∀ v, t.billed v = if v = u then (n : Int) else 0 := by
  obtain ⟨_, hpc', last, before, hlive, hexit⟩ := hs.left (by rw [hpc]; rfl)
  cases hpc.symm.trans hpc'
  have hdone : ∀ {w : Work}, .sent w.lookupRequest ∈ t.trail →
      t.call = some ⟨w.lookupRequest, .answered (w.lookupRequest.response cfg.providerPriceCents)⟩ →
      (w.tenantId, (enrichedRecords cfg w.tenantId
        (w.lookupRequest.response cfg.providerPriceCents)).length) = (u, n) →
      t.request.principal = some u ∧ (∃ names, t.request.payload.names? = some names ∧
        n = names.length) ∧ ∀ v, t.billed v = if v = u then (n : Int) else 0 := by
    intro w hsent hcall heq
    cases heq
    have hasks := hasked.sends _ hsent
    have hlength : (enrichedRecords cfg w.tenantId
        (w.lookupRequest.response cfg.providerPriceCents)).length = w.companyNames.length := by
      simp [enrichedRecords, recordEntries, LookupRequest.response, LookupRequest.results,
        Work.lookupRequest]
    refine ⟨hasks.principal, ⟨_, hasks.names, hlength⟩, fun v => ?_⟩
    rw [hlength]
    simp [Task.billed, hcall, Call.billed, CallPhase.isAnswered, Work.lookupRequest,
      eq_comm (a := v)]
  rcases hexit with ⟨hexit, -⟩ | ⟨exc, rfl, -⟩
  · cases hexit with
    | @enriched w r result hjob =>
        obtain ⟨-, ⟨hcall, rfl⟩, -, htrail⟩ := hlive
        exact hdone (by rw [htrail]; simp [Pc.trail, FinishPoint.trail]) hcall
          (Option.some.inj hadmission)
    | @imported w r result jobId =>
        obtain ⟨-, ⟨hcall, rfl⟩, -, htrail⟩ := hlive
        exact hdone (by rw [htrail]; simp [Pc.trail, FinishPoint.trail]) hcall
          (Option.some.inj hadmission)
    | page => cases hadmission
    | raised => cases hadmission
  · cases hadmission

/-- **One request.** A request that has ended, and was not struck if it was admitted, is billed for
what its response admits. -/
theorem admitted_billed (hs : t.Sound cfg) (hasked : t.Asked) (hend : t.pc.isEnded = true)
    (hclean : t.Admitted → ∀ x ∈ t.raised, x.2.isRefusal = true) (u : TenantId) :
    t.admitted u = t.billed u := by
  obtain ⟨ending, hpc, -⟩ := hs.left hend
  cases hadmission : ending.admission? with
  | some a =>
      obtain ⟨v, n⟩ := a
      have hbilled := (hasked.admission hs hpc hadmission).2.2 u
      simp [Task.admitted, hpc, hadmission, hbilled]
  | none =>
      have hcall := (Task.idle_of_unadmitted hs hpc hadmission hclean).1
      simp [Task.admitted, Task.billed, hpc, hadmission, hcall]

end Limitless
