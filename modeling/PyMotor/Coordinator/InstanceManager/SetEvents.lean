import PyMotor.Coordinator.InstanceManager.Charges
import PyMotor.Coordinator.InstanceManager.Refresh

/-!
# What a `SET` leaves behind

A `SET` replaces an instance only if it differs from the one that is available in more than its runtime
state, which the instance manager decides by a signature: of an endpoint it has the pod, the id, the
address and the two ports of the service. `set_faithful_iff` says that a `SET` is faithful if and only if
no instance is hidden by its signature; the port for the bootstrap of a native prefill worker is one of
the things that can be.
-/

namespace PyMotor.Coordinator

/-- An endpoint without its runtime state. -/
def Endpoint.record (ep : Endpoint) : Endpoint := { ep with workload := .zero }

namespace Instance

/-- The records agree: all fields but the runtime state are equal, and dicts are equal if they have equal
values under all keys. -/
structure SameRecord (i j : Instance) : Prop where
  id : i.id = j.id
  jobName : i.jobName = j.jobName
  modelName : i.modelName = j.modelName
  engineType : i.engineType = j.engineType
  dispatchCapabilities : i.dispatchCapabilities = j.dispatchCapabilities
  role : i.role = j.role
  parallelConfig : i.parallelConfig = j.parallelConfig
  enableMultiEndpoints : i.enableMultiEndpoints = j.enableMultiEndpoints
  nodeManagers : i.nodeManagers = j.nodeManagers
  pods : ∀ pod, i.endpoints.contains pod = j.endpoints.contains pod
  endpoints : ∀ place, (i.endpointAt place).map Endpoint.record = (j.endpointAt place).map Endpoint.record

theorem sameRecord_resetWorkload (i : Instance) : i.resetWorkload.SameRecord i where
  id := rfl
  jobName := rfl
  modelName := rfl
  engineType := rfl
  dispatchCapabilities := rfl
  role := rfl
  parallelConfig := rfl
  enableMultiEndpoints := rfl
  nodeManagers := rfl
  pods pod := by
    simp only [resetWorkload, Dict.contains, Dict.get?_mapVal, Option.isSome_map]
  endpoints place := by
    simp only [endpointAt, resetWorkload, Dict.get?_mapVal]
    cases i.endpoints.get? place.1 with
    | none => rfl
    | some pod =>
      simp only [Option.map_some, Option.bind_some, Dict.get?_mapVal, Option.map_map]
      rfl

theorem needsUpdate_resetWorkload (i : Instance) : i.resetWorkload.needsUpdate i = false := by
  have hsignature : i.resetWorkload.endpointSignature = i.endpointSignature := by
    simp [endpointSignature, resetWorkload, Dict.mapVal, Dict.values, List.flatMap_map,
      Function.comp_def]
  unfold needsUpdate
  rw [hsignature]
  simp [resetWorkload]

end Instance

namespace InstanceManager

variable {m : InstanceManager} {w : Roster} {instances : List Instance}

/-! ## After a `SET` -/

theorem staying_of_setRoster {d : Dict InstanceId Instance} {id : InstanceId} {new : Instance}
    {v : Place × Instance} (hnew : d.get? id = some new) (hv : setRoster d w id = some v) :
    staying new v = true := by
  rw [setRoster, hnew, Option.map_some] at hv
  cases hkept : (w id).filter (staying new) with
  | none =>
    rw [hkept] at hv
    cases hv
    simp [staying, Instance.needsUpdate_resetWorkload]
  | some kept =>
    rw [hkept] at hv
    cases hv
    exact (Option.filter_eq_some_iff.mp hkept).2

theorem Represents.setInstances_again (h : Represents m (setRoster (newInstById instances) w))
    (σ : HashOrder InstanceId) : m.setInstances σ instances = (.ok false, m) := by
  have hrefresh : ∀ id, m.toRefresh (newInstById instances) id = false := by
    intro id
    rw [toRefresh_eq h, Option.any_eq_false]
    intro new hnew
    rw [Option.any_eq_false]
    intro v hv
    rw [staying_of_setRoster hnew hv]
    rfl
  have hremoved : (m.computeSetDiff σ instances).2 = [] := by
    rw [List.eq_nil_iff_forall_not_mem]
    intro inst hinst
    obtain ⟨hin, hgone⟩ := (mem_removed_iff h σ instances).mp (List.mem_map_of_mem hinst)
    rw [hrefresh] at hgone
    exact hin (by simp [setRoster, hgone.resolve_right Bool.false_ne_true])
  have hadded : (m.computeSetDiff σ instances).1 = [] := by
    rw [List.eq_nil_iff_forall_not_mem]
    intro inst hinst
    obtain ⟨hnew, hmissing⟩ := (mem_added_iff h σ instances).mp (List.mem_map_of_mem hinst)
    rw [hrefresh] at hmissing
    obtain ⟨new, hnew⟩ := Option.ne_none_iff_exists'.mp hnew
    exact setRoster_ne_none hnew (hmissing.resolve_right Bool.false_ne_true)
  unfold InstanceManager.setInstances
  simp only [hremoved, hadded]
  rfl

/-- **The pools are those of the announced instances**: each is in the pool of its role, with the record
that was announced, nothing else is there, and to announce them again changes nothing. -/
structure SetTo (m : InstanceManager) (instances : List Instance) : Prop where
  ids : ∀ id, m.availablePool.contains id = true ↔ id ∈ instances.map (·.id)
  filed : ∀ inst ∈ instances, ∃ existing role, m.availablePool.get? inst.id = some existing ∧
    existing.SameRecord inst ∧ PDRole.ofString inst.role = some role ∧
      ∀ role', (m.rolePools role').get? inst.id = if role' = role then some existing else none
  roles : ∀ role id, (m.rolePools role).contains id = true → id ∈ instances.map (·.id)
  unavailable : m.unavailablePool = ∅
  paused : m.pausedPool = ∅
  again : ∀ σ, m.refreshInstances σ .set instances = (.ok false, m)

theorem wellNamed_newInstById (hids : (instances.map (·.id)).Nodup)
    (hjobs : (instances.map (·.jobName)).Nodup)
    (hroles : ∀ inst ∈ instances, (PDRole.ofString inst.role).isSome) :
    WellNamed (newInstById instances) where
  keyed _ _ hnew := newInstById_keyed hnew
  known _ new hnew :=
    Option.isSome_iff_exists.mp (hroles new ((get?_newInstById_iff hids).mp hnew).1)
  named id id' new new' hnew hnew' hname := by
    obtain ⟨hmem, rfl⟩ := (get?_newInstById_iff hids).mp hnew
    obtain ⟨hmem', rfl⟩ := (get?_newInstById_iff hids).mp hnew'
    rw [List.inj_on_of_nodup_map hjobs hmem hmem' hname]

/-- **A `SET` on pools with a roster** is faithful if and only if the signature of every instance tells
what changed. -/
theorem Represents.setTo_iff (h : Represents m w) (σ : HashOrder InstanceId)
    (hids : (instances.map (·.id)).Nodup) (hjobs : (instances.map (·.jobName)).Nodup)
    (hroles : ∀ inst ∈ instances, (PDRole.ofString inst.role).isSome) :
    (m.refreshInstances σ .set instances).2.SetTo instances ↔ ∀ inst ∈ instances, ∀ existing,
      m.availablePool.get? inst.id = some existing → existing.needsUpdate inst = false →
        existing.SameRecord inst := by
  obtain ⟨r, m', hset, hm'⟩ := h.setInstances_eq σ (wellNamed_newInstById hids hjobs hroles)
  have hmanager : (m.refreshInstances σ .set instances).2 = m' := congrArg Prod.snd hset
  rw [hmanager]
  have hdrawn := DrawnFrom.setRoster (d := newInstById instances) w
  have hnew : ∀ inst ∈ instances, (newInstById instances).get? inst.id = some inst :=
    fun inst hinst => (get?_newInstById_iff hids).mpr ⟨hinst, rfl⟩
  have hmem : ∀ {id v}, setRoster (newInstById instances) w id = some v →
      id ∈ instances.map (·.id) := by
    intro id v hv
    obtain ⟨-, new, hget, -⟩ := hdrawn id v hv
    obtain ⟨hinst, rfl⟩ := (get?_newInstById_iff hids).mp hget
    exact List.mem_map_of_mem hinst
  have hplace : ∀ p, p ≠ .available → ∀ id,
      (setRoster (newInstById instances) w id).bind (inPlace p) = none := by
    intro p hp id
    rw [Option.eq_none_iff_forall_ne_some]
    intro inst hinst
    exact hp (hdrawn id _ (bind_inPlace_eq_some.mp hinst)).1
  constructor
  -- what has the old signature stays, so it has to be the same record
  · intro hto inst hinst existing havailable hsame
    rw [h.get?_availablePool] at havailable
    have hstays : setRoster (newInstById instances) w inst.id = some (.available, existing) := by
      simp [setRoster, hnew inst hinst, havailable, Option.filter, staying, hsame]
    obtain ⟨kept, role, hkept, hrecord, -⟩ := hto.filed inst hinst
    rw [hm'.get?_availablePool, hstays] at hkept
    cases hkept
    exact hrecord
  · intro hhidden
    constructor
    · intro id
      rw [hm'.mem_available]
      constructor
      · rintro ⟨inst, hv⟩
        exact hmem hv
      · intro hid
        obtain ⟨inst, hinst, rfl⟩ := List.mem_map.mp hid
        obtain ⟨v, hv⟩ := Option.ne_none_iff_exists'.mp (setRoster_ne_none (w := w) (hnew inst hinst))
        exact ⟨v.2, by rw [hv, ← (hdrawn _ v hv).1]⟩
    · intro inst hinst
      -- each instance is the one that was there, or the new one at rest
      obtain ⟨role, hrole⟩ := Option.isSome_iff_exists.mp (hroles inst hinst)
      have hfiled : ∀ existing, setRoster (newInstById instances) w inst.id = some (.available, existing) →
          ∀ role', (m'.rolePools role').get? inst.id = if role' = role then some existing else none := by
        intro existing hv role'
        obtain ⟨-, new, hget, -, hsame⟩ := hdrawn _ _ hv
        rw [hnew inst hinst] at hget
        cases hget
        rw [hm'.filed, hv, Option.bind_some, filedUnder]
        simp only at hsame
        simp [hsame, hrole, eq_comm]
      have hvalue : setRoster (newInstById instances) w inst.id =
          some (((w inst.id).filter (staying inst)).getD (.available, inst.resetWorkload)) := by
        rw [setRoster, hnew inst hinst, Option.map_some]
      cases hkept : (w inst.id).filter (staying inst) with
      | none =>
        rw [hkept, Option.getD_none] at hvalue
        have hget := hm'.get?_availablePool.mpr hvalue
        exact ⟨_, role, hget, inst.sameRecord_resetWorkload, hrole, hfiled _ hvalue⟩
      | some v =>
        obtain ⟨p, existing⟩ := v
        obtain ⟨hv, hstaying⟩ := Option.filter_eq_some_iff.mp hkept
        simp only [staying, Bool.and_eq_true, decide_eq_true_eq, Bool.not_eq_true'] at hstaying
        obtain ⟨rfl, hsame⟩ := hstaying
        rw [hkept, Option.getD_some] at hvalue
        have hget := hm'.get?_availablePool.mpr hvalue
        have havailable := h.get?_availablePool.mpr hv
        exact ⟨existing, role, hget, hhidden inst hinst existing havailable hsame, hrole,
          hfiled existing hvalue⟩
    · intro role id hcontains
      rw [(hm'.filed role).contains_iff] at hcontains
      obtain ⟨inst, hinst⟩ := hcontains
      exact hmem (bind_filedUnder_eq_some.mp hinst).1
    · exact Dict.eq_empty_of_isEmpty (Dict.isEmpty_iff.mpr fun id => by
        rw [hm'.unavailable, hplace _ (by decide)])
    · exact Dict.eq_empty_of_isEmpty (Dict.isEmpty_iff.mpr fun id => by
        rw [hm'.paused, hplace _ (by decide)])
    · intro σ'
      exact hm'.setInstances_again σ'

/-! ## Runs -/

/-- Every instance that an `ADD` announces is fresh when its turn comes. -/
def KeepsRoster (m : InstanceManager) : LedgerOp → Prop
  | .manage op => m.KeepsPools op
  | .change _ _ _ => True

instance (m : InstanceManager) : ∀ op, Decidable (m.KeepsRoster op)
  | .manage op => inferInstanceAs (Decidable (m.KeepsPools op))
  | .change _ _ _ => isTrue trivial

theorem execLedger_represents {m' : InstanceManager} {op : LedgerOp} (h : ∃ w, Represents m w)
    (hkeep : m.KeepsRoster op) (he : m.execLedger op = some m') : ∃ w', Represents m' w' := by
  cases op with
  | manage op => exact exec_represents h hkeep he
  | change id endpointId change =>
    cases he
    obtain ⟨w, hw⟩ := h
    exact hw.updateInstanceWorkloadSync id endpointId change

/-- **A `SET` is faithful** in every run if and only if an available instance with the signature of the
announced one also has its record. -/
theorem set_faithful_iff {ops : List LedgerOp} (hrun : Run execLedger KeepsRoster new ops m)
    (σ : HashOrder InstanceId) (hids : (instances.map (·.id)).Nodup)
    (hjobs : (instances.map (·.jobName)).Nodup)
    (hroles : ∀ inst ∈ instances, (PDRole.ofString inst.role).isSome) :
    (m.refreshInstances σ .set instances).2.SetTo instances ↔ ∀ inst ∈ instances, ∀ existing,
      m.availablePool.get? inst.id = some existing → existing.needsUpdate inst = false →
        existing.SameRecord inst := by
  obtain ⟨w, hw⟩ := hrun.invariant_state (I := fun m => ∃ w, Represents m w) ⟨_, represents_new⟩
    fun h hkeep he => execLedger_represents h hkeep he
  exact hw.setTo_iff σ hids hjobs hroles

/-- Two instances come. -/
def addRun : List LedgerOp :=
  [.manage (.refresh .insertion .add [oneEndpoint 1 "p" "prefill", oneEndpoint 2 "q" "decode"])]

/-- The instance now has a port for its bootstrap. -/
def withBootstrap : Instance :=
  { oneEndpoint 1 "p" "prefill" with
    endpoints := (∅ : Dict String _).insert "10.0.0.1" ((∅ : Dict EndpointId Endpoint).insert 0
      ⟨0, "10.0.0.1", "8000", "8001", some 8998, [], .zero, false⟩) }

/-- The bootstrap port of the first endpoint of instance 1. -/
def bootstrapPortOf (m : InstanceManager) : Option (Option ℕ) :=
  ((m.availablePool.get? 1).bind (·.endpointAt ("10.0.0.1", 0))).map (·.bootstrapPort)

/-- The port is not seen. -/
theorem withBootstrap_hidden : ∃ m, Run execLedger KeepsRoster new addRun m ∧
    (m.refreshInstances .insertion .set [withBootstrap]).2.bootstrapPortOf = some none ∧
      ¬(m.refreshInstances .insertion .set [withBootstrap]).2.SetTo [withBootstrap] := by
  have hport : (runList execLedger KeepsRoster new addRun).map (fun m =>
      (m.refreshInstances .insertion .set [withBootstrap]).2.bootstrapPortOf) = some (some none) := by
    decide
  obtain ⟨m, hm, hport⟩ := Option.map_eq_some_iff.mp hport
  refine ⟨m, runList_run hm, hport, fun hto => ?_⟩
  obtain ⟨existing, role, hget, hrecord, -⟩ := hto.filed withBootstrap (List.mem_singleton_self _)
  have hget : (m.refreshInstances .insertion .set [withBootstrap]).2.availablePool.get? 1 =
      some existing := hget
  have hendpoint : (existing.endpointAt ("10.0.0.1", 0)).map Endpoint.record =
      some ⟨0, "10.0.0.1", "8000", "8001", some 8998, [], .zero, false⟩ := hrecord.endpoints _
  obtain ⟨ep, hep, hrecorded⟩ := Option.map_eq_some_iff.mp hendpoint
  rw [bootstrapPortOf, hget, Option.bind_some, hep, Option.map_some] at hport
  have hset : ep.bootstrapPort = some 8998 := congrArg Endpoint.bootstrapPort hrecorded
  rw [hset] at hport
  cases hport

/-- The first instance has a new role, the second one stays, and a third one comes. -/
def announced : List Instance :=
  [oneEndpoint 1 "p" "decode", oneEndpoint 2 "q" "decode", oneEndpoint 3 "r" "prefill"]

/-- The new role is seen, and the instance that stays has its record. -/
theorem newRole_set : ∃ m, Run execLedger KeepsRoster new addRun m ∧
    (m.refreshInstances .insertion .set announced).2.SetTo announced := by
  have hrole : (runList execLedger KeepsRoster new addRun).bind (fun m =>
      (m.availablePool.get? 1).map (·.needsUpdate (oneEndpoint 1 "p" "decode"))) = some true := by
    decide
  have hstays : (runList execLedger KeepsRoster new addRun).bind (·.availablePool.get? 2) =
      some (oneEndpoint 2 "q" "decode").resetWorkload := rfl
  have hcomes : (runList execLedger KeepsRoster new addRun).bind (·.availablePool.get? 3) = none := rfl
  obtain ⟨m, hm, hrole⟩ := Option.bind_eq_some_iff.mp hrole
  rw [hm] at hstays hcomes
  refine ⟨m, runList_run hm, (set_faithful_iff (runList_run hm) .insertion (by decide) (by decide)
    (by decide)).mpr ?_⟩
  intro inst hinst existing hget hsame
  simp only [announced, List.mem_cons, List.not_mem_nil, or_false] at hinst
  obtain rfl | rfl | rfl := hinst
  · obtain ⟨existing', hget', hchanged⟩ := Option.map_eq_some_iff.mp hrole
    cases hget'.symm.trans hget
    exact absurd (hchanged.symm.trans hsame) (by decide)
  · cases hstays.symm.trans hget
    exact Instance.sameRecord_resetWorkload _
  · cases hcomes.symm.trans hget

end InstanceManager

end PyMotor.Coordinator
