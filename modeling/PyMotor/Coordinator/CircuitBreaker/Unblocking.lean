import PyMotor.Coordinator.CircuitBreaker.Blocking
import PyMotor.Coordinator.CircuitBreaker.Opening

/-!
# No worker blocks a healthy instance for good

What a worker will believe about an instance, once it has heard everything on the channel, is decided
by the last publication about its circuit or its removal. So it is enough that the scheduler is honest at
any time: if the worker will believe that the instance is blocked, then its circuit is open, or a task is
still to publish that it is not. A removal clears the circuits of its instances and publishes nothing about
them; so the worker has to learn of it from the publication of the removal itself.
-/

namespace PyMotor.Coordinator

/-! ## Open circuits stay open -/

namespace CircuitBreakerManager

variable {m : CircuitBreakerManager} {id id' : InstanceId}

theorem isOpen_insert {st : CircuitBreakerState} (h : m.isOpen id = true)
    (hst : id' = id → st.isOpen = true) :
    (⟨m.pool.insert id' st⟩ : CircuitBreakerManager).isOpen id = true := by
  simp only [isOpen, Dict.get?_insert]
  by_cases hid : id' = id
  · simp [hid, hst hid]
  · simpa [hid, isOpen] using h

theorem isOpen_clearInstance (h : m.isOpen id = true) (hid : id' ≠ id) :
    (m.clearInstance id').isOpen id = true := by
  simpa [clearInstance, isOpen, Dict.get?_erase_ne _ hid] using h

theorem isOpen_processFailure (h : m.isOpen id = true) : (m.processFailure id').2.isOpen id = true := by
  have hopen : id' = id → (m.getOrCreate id').isOpen = true := by
    intro hid
    rw [hid, ← BreakerServer.isOpen_eq_getOrCreate]
    exact h
  simp only [processFailure]
  split
  · next hst => exact isOpen_insert h fun _ => hst
  · next hst =>
    -- the circuit that is counted for is closed, so it is another one
    have hid : id' ≠ id := fun hid => hst (hopen hid)
    split
    · exact isOpen_insert h fun hid' => absurd hid' hid
    · split
      · exact isOpen_insert h fun hid' => absurd hid' hid
      · exact isOpen_insert h fun hid' => absurd hid' hid

theorem isOpen_processProbeFailure (h : m.isOpen id = true) :
    (m.processProbeFailure id').2.isOpen id = true := by
  unfold processProbeFailure
  split
  · exact h
  · next st hst =>
    cases hopen : st.isOpen with
    | false => simpa [hopen] using h
    | true =>
      simp only [if_true]
      split
      · exact isOpen_insert h fun _ => hopen
      · exact isOpen_insert h fun _ => hopen

theorem isOpen_processSuccess (h : m.isOpen id = true)
    (hid : (m.processSuccess id').1 = true → id' ≠ id) : (m.processSuccess id').2.isOpen id = true := by
  unfold processSuccess at hid ⊢
  split
  · exact h
  · next st hst =>
    apply isOpen_insert h
    intro heq
    subst heq
    simp only [hst] at hid
    have hopen : st.isOpen = true := by simpa [isOpen, hst] using h
    exact absurd rfl (hid hopen)

theorem isOpen_autoRecover (h : m.isOpen id = true) (hid : (m.autoRecover id').1 = true → id' ≠ id) :
    (m.autoRecover id').2.isOpen id = true := by
  unfold autoRecover at hid ⊢
  split
  · exact h
  · next st hst =>
    simp only [hst] at hid
    split
    · next hopen =>
      simp only [hopen, if_true] at hid
      exact isOpen_insert h fun heq => absurd heq (hid trivial)
    · exact h

theorem mem_getOpenInstanceIds (h : m.isOpen id = true) : id ∈ m.getOpenInstanceIds := by
  obtain ⟨st, hst, hopen⟩ := BreakerServer.exists_open h
  apply Dict.mem_keys_iff.mpr
  exact ⟨st, by simp [hst, hopen]⟩

theorem isOpen_of_tripped {timeout : ℕ} {m' : CircuitBreakerManager}
    (h : m.processFailure id = (.ok (some timeout), m')) : m'.isOpen id = true := by
  simp only [processFailure] at h
  split at h
  · cases h
  · split at h
    · cases h
    · split at h
      · cases h
      · cases h
        simp [isOpen, CircuitBreakerState.tripState, CircuitBreakerState.isOpen]

end CircuitBreakerManager

/-! ## What a worker will believe -/

def hear (id : InstanceId) (blocked : Bool) : Publication → Bool
  | .circuit id' state => if id' = id then decide (state = .open) else blocked
  | .instances changed => blocked && decide (id ∉ changed.removed)

/-- Whether the worker will believe that the instance is blocked, when it has heard everything. -/
def believed (channel : List Publication) (blocked : Bool) (id : InstanceId) : Bool :=
  channel.foldl (hear id) blocked

theorem believed_snoc (channel : List Publication) (blocked : Bool) (id : InstanceId)
    (publication : Publication) :
    believed (channel ++ [publication]) blocked id = hear id (believed channel blocked id) publication := by
  simp [believed]

theorem of_believed_instances {channel : List Publication} {blocked : Bool} {id : InstanceId}
    {changed : Option InstanceChanged}
    (h : believed (channel ++ changed.toList.map .instances) blocked id = true) :
    believed channel blocked id = true ∧ ∀ c ∈ changed, id ∉ c.removed := by
  cases changed with
  | none => exact ⟨by simpa using h, fun _ hc => by cases hc⟩
  | some changed =>
    have hnow : hear id (believed channel blocked id) (.instances changed) = true := by
      rw [← believed_snoc]
      exact h
    simp only [hear, Bool.and_eq_true, decide_eq_true_eq] at hnow
    refine ⟨hnow.1, fun c hc => ?_⟩
    cases hc
    exact hnow.2

/-- What is announced about a circuit decides, whatever was believed before. -/
theorem believed_announced {channel : List Publication} {id : InstanceId}
    (h : channel.any (·.isAbout id) = true) (blocked blocked' : Bool) :
    believed channel blocked id = believed channel blocked' id := by
  induction channel generalizing blocked blocked' with
  | nil => cases h
  | cons publication channel ih =>
    rw [List.any_cons, Bool.or_eq_true] at h
    rcases h with habout | hlater
    · cases publication with
      | instances changed => cases habout
      | circuit id' state =>
        have hid : id' = id := of_decide_eq_true habout
        simp [believed, hear, hid]
    · exact ih hlater _ _

/-- Whoever believes less now, will not believe more later. -/
theorem believed_mono {channel : List Publication} {blocked blocked' : Bool} {id : InstanceId}
    (hle : blocked' = true → blocked = true) (h : believed channel blocked' id = true) :
    believed channel blocked id = true := by
  induction channel generalizing blocked blocked' with
  | nil => exact hle h
  | cons publication channel ih =>
    refine ih ?_ h
    cases publication with
    | instances changed =>
      simp only [hear, Bool.and_eq_true]
      exact And.imp_left hle
    | circuit id' state =>
      simp only [hear]
      split
      · exact fun h => h
      · exact hle

/-- The scheduler is honest about an instance towards a worker. -/
def Honest (s : BreakerServer) (blocked : Bool) (id : InstanceId) : Prop :=
  believed s.channel blocked id = true → s.cbManager.isOpen id = true ∨ id ∈ s.closedToPublish

namespace Honest

variable {s s' : BreakerServer} {blocked : Bool} {id : InstanceId}

theorem mono {blocked' : Bool} (h : Honest s blocked id) (hle : blocked' = true → blocked = true) :
    Honest s blocked' id := fun hbelieved => h (believed_mono hle hbelieved)

theorem keep (h : Honest s blocked id) (hchannel : s'.channel = s.channel)
    (hopen : s.cbManager.isOpen id = true → s'.cbManager.isOpen id = true)
    (hpending : s'.closedToPublish = s.closedToPublish) : Honest s' blocked id := by
  intro hbelieved
  rw [hchannel] at hbelieved
  rw [hpending]
  exact (h hbelieved).imp_left hopen

theorem publish_open {id' : InstanceId} (h : Honest s blocked id)
    (hchannel : s'.channel = s.channel ++ [.circuit id' .open])
    (hnow : s'.cbManager.isOpen id' = true)
    (hopen : s.cbManager.isOpen id = true → s'.cbManager.isOpen id = true)
    (hpending : s'.closedToPublish = s.closedToPublish) : Honest s' blocked id := by
  intro hbelieved
  rw [hchannel, believed_snoc] at hbelieved
  rw [hpending]
  by_cases hid : id' = id
  · subst hid
    exact Or.inl hnow
  · simp only [hear, if_neg hid] at hbelieved
    exact (h hbelieved).imp_left hopen

theorem publish_closed {id' : InstanceId} (h : Honest s blocked id)
    (hchannel : s'.channel = s.channel ++ [.circuit id' .closed])
    (hopen : id' ≠ id → s.cbManager.isOpen id = true → s'.cbManager.isOpen id = true)
    (hpending : id' ≠ id → id ∈ s.closedToPublish → id ∈ s'.closedToPublish) :
    Honest s' blocked id := by
  intro hbelieved
  rw [hchannel, believed_snoc] at hbelieved
  by_cases hid : id' = id
  · simp [hear, hid] at hbelieved
  · simp only [hear, if_neg hid] at hbelieved
    exact (h hbelieved).imp (hopen hid) (hpending hid)

open CircuitBreakerManager BreakerServer

theorem reportFailure (h : Honest s blocked id) (id' : InstanceId) :
    Honest (s.reportFailure id') blocked id := by
  have hopen : s.cbManager.isOpen id = true → (s.cbManager.processFailure id').2.isOpen id = true :=
    isOpen_processFailure
  unfold BreakerServer.reportFailure
  split
  · next heq =>
    rw [heq] at hopen
    exact h.keep rfl hopen rfl
  · next heq =>
    rw [heq] at hopen
    exact h.keep rfl hopen rfl
  · next heq =>
    rw [heq] at hopen
    exact h.publish_open rfl (isOpen_of_tripped heq) hopen rfl

theorem reportSuccess (h : Honest s blocked id) (id' : InstanceId) :
    Honest (s.reportSuccess id') blocked id := by
  have hopen : s.cbManager.isOpen id = true → ((s.cbManager.processSuccess id').1 = true → id' ≠ id) →
      (s.cbManager.processSuccess id').2.isOpen id = true := isOpen_processSuccess
  unfold BreakerServer.reportSuccess
  split
  · next heq =>
    rw [heq] at hopen
    exact h.keep rfl (fun ho => hopen ho fun hf => by cases hf) rfl
  · next heq =>
    rw [heq] at hopen
    exact h.publish_closed rfl (fun hid ho => hopen ho fun _ => hid) fun _ hp => hp

theorem probeFailed (h : Honest s blocked id) (i : ℕ) (id' : InstanceId) :
    Honest (s.probeFailed i id') blocked id := by
  have hopen : s.cbManager.isOpen id = true → (s.cbManager.processProbeFailure id').2.isOpen id = true :=
    isOpen_processProbeFailure
  unfold BreakerServer.probeFailed
  split <;> next heq =>
    rw [heq] at hopen
    exact h.keep rfl hopen rfl

theorem probeSucceeded (h : Honest s blocked id) (i : ℕ) (id' : InstanceId) :
    Honest (s.probeSucceeded i id') blocked id := by
  have hopen : s.cbManager.isOpen id = true → ((s.cbManager.autoRecover id').1 = true → id' ≠ id) →
      (s.cbManager.autoRecover id').2.isOpen id = true := isOpen_autoRecover
  unfold BreakerServer.probeSucceeded
  split
  · next heq =>
    rw [heq] at hopen
    exact h.publish_closed rfl (fun hid ho => hopen ho fun _ => hid) fun _ hp => hp
  · next heq =>
    rw [heq] at hopen
    exact h.keep rfl (fun ho => hopen ho fun hf => by cases hf) rfl

theorem probeInstance (h : Honest s blocked id) (i : ℕ) (id' : InstanceId) (hasEndpoints : Bool) :
    Honest (s.probeInstance i id' hasEndpoints) blocked id := by
  unfold BreakerServer.probeInstance
  split
  · exact h.publish_closed rfl (fun hid ho => isOpen_clearInstance ho hid) fun _ hp => hp
  · split
    · exact h.probeFailed i id'
    · exact h

theorem clearCircuits (h : Honest s blocked id) : Honest s.clearCircuits blocked id := by
  intro hbelieved
  right
  rcases h hbelieved with hopen | hpending
  · exact List.mem_append_right _ (mem_getOpenInstanceIds hopen)
  · exact List.mem_append_left _ hpending

theorem clearAllOf (h : Honest s blocked id) {instances : List Instance}
    (hother : s.cbManager.isOpen id = true → ∀ inst ∈ instances, inst.id ≠ id) :
    Honest (instances.foldl (fun s inst => s.clearCircuit inst.id) s) blocked id := by
  induction instances generalizing s with
  | nil => exact h
  | cons inst instances ih =>
    apply ih
    · exact h.keep rfl (fun hopen => isOpen_clearInstance hopen (hother hopen inst List.mem_cons_self)) rfl
    · intro hopen inst' hinst'
      exact hother (isOpen_of_clearInstance hopen) inst' (List.mem_cons_of_mem _ hinst')

theorem handleRefreshInstances (h : Honest s blocked id) {σ : HashOrder InstanceId}
    {eventType : EventType} {instances : List Instance}
    (hclosed : eventType = .del →
      (s.server.instanceManager.refreshInstances σ .del instances).1.toOption = some false →
        ∀ inst ∈ instances, s.cbManager.isOpen inst.id = false) :
    Honest (s.handleRefreshInstances σ eventType instances) blocked id := by
  unfold BreakerServer.handleRefreshInstances
  split
  · exact h
  · next removes m hok =>
    have hpublished : eventType = .del → removes = true → ∀ inst ∈ instances,
        ∃ c ∈ (s.server.handleRefreshInstances σ eventType instances).2, inst.id ∈ c.removed := by
      rintro rfl rfl inst hinst
      refine ⟨⟨s.server.instanceVersion + 1, some ⟨.del, instances⟩⟩, ?_, List.mem_map_of_mem hinst⟩
      cases instances with
      | nil => cases hinst
      | cons => simp [SchedulerServer.handleRefreshInstances, hok, SchedulerServer.buildInstanceDelta]
    generalize s.server.handleRefreshInstances σ eventType instances = r at hpublished ⊢
    obtain ⟨server, changed⟩ := r
    intro hbelieved
    obtain ⟨hbefore, hstays⟩ := of_believed_instances hbelieved
    have hserver : Honest { s with server := server } blocked id := h
    have hreset : Honest ({ s with server := server }.resetCircuits eventType instances) blocked id := by
      cases eventType with
      | set => exact hserver.clearCircuits
      | del =>
        refine hserver.clearAllOf fun hopen inst hinst heq => ?_
        cases removes with
        | false =>
          have hinst' := hclosed rfl (by rw [hok]; rfl) inst hinst
          rw [heq] at hinst'
          exact Bool.false_ne_true (hinst'.symm.trans hopen)
        | true =>
          obtain ⟨c, hc, hin⟩ := hpublished rfl rfl inst hinst
          exact hstays c hc (heq ▸ hin)
      | add => exact hserver
      | pause => exact hserver
      | resume => exact hserver
    exact hreset hbefore

/-- **The scheduler stays honest**, unless a removal takes an open circuit with it and is not published. -/
theorem exec {l : BreakerStep} (h : Honest s blocked id) (hs : s.exec l = some s')
    (hclosed : ∀ σ instances, l = .refresh σ .del instances →
      (s.server.instanceManager.refreshInstances σ .del instances).1.toOption = some false →
        ∀ inst ∈ instances, s.cbManager.isOpen inst.id = false) : Honest s' blocked id := by
  cases l with
  | refresh σ eventType instances =>
    cases hs
    apply h.handleRefreshInstances
    intro hdel
    subst hdel
    exact hclosed σ instances rfl
  | report id' event =>
    cases hs
    cases event with
    | failure => exact h.reportFailure id'
    | success => exact h.reportSuccess id'
  | snapshot =>
    cases hs
    exact h
  | fire i hasEndpoints =>
    obtain ⟨task, htask, hs⟩ := Option.bind_eq_some_iff.mp hs
    split at hs
    · cases hs
      exact h.probeInstance i task.instanceId hasEndpoints
    · cases hs
  | probed i healthy =>
    obtain ⟨task, htask, hs⟩ := Option.bind_eq_some_iff.mp hs
    split at hs
    · cases hs
      cases healthy with
      | true => exact h.probeSucceeded i task.instanceId
      | false => exact h.probeFailed i task.instanceId
    · cases hs
  | resume i =>
    obtain ⟨task, htask, hs⟩ := Option.bind_eq_some_iff.mp hs
    split at hs
    · unfold resumeTask at hs
      cases hstage : task.stage <;> rw [hstage] at hs <;> cases hs
      · exact h.probeFailed i task.instanceId
      · exact h
    · cases hs
  | cancelled i =>
    obtain ⟨task, htask, hs⟩ := Option.bind_eq_some_iff.mp hs
    split at hs
    · unfold cancelTask at hs
      cases hstage : task.stage <;> rw [hstage] at hs <;> cases hs <;> exact h
    · cases hs
  | publishClosed i =>
    obtain ⟨id', hid', rfl⟩ := Option.map_eq_some_iff.mp hs
    -- what is still to be published about `id` stays, unless this was it
    have hpending : id' ≠ id → id ∈ s.closedToPublish → id ∈ s.closedToPublish.eraseIdx i := by
      intro hid hp
      obtain ⟨j, hj⟩ := List.mem_iff_getElem?.mp hp
      apply List.mem_eraseIdx_iff_getElem?.mpr
      refine ⟨j, ?_, hj⟩
      intro hij
      subst hij
      rw [hid'] at hj
      cases hj
      exact hid rfl
    exact h.publish_closed rfl (fun _ ho => ho) hpending

end Honest

/-! ## The worker -/

namespace Blocking

variable {s s' : Blocking}

/-- The scheduler is honest towards the worker about every instance. -/
def AllHonest (s : Blocking) : Prop :=
  ∀ id, Honest s.breaker (decide (id ∈ s.cbBlockedInstances)) id

theorem AllHonest.shrink (h : s.AllHonest) (hbreaker : s'.breaker = s.breaker)
    (hsub : ∀ id, id ∈ s'.cbBlockedInstances → id ∈ s.cbBlockedInstances) : s'.AllHonest := by
  intro id hbelieved
  rw [hbreaker] at hbelieved ⊢
  exact h id (believed_mono (by simpa using hsub id) hbelieved)

theorem mem_of_mem_unblockRemoved {blocked : OrdSet InstanceId} {delta : Option InstanceDelta}
    {id : InstanceId} (h : id ∈ unblockRemoved blocked delta) : id ∈ blocked := by
  unfold unblockRemoved at h
  split at h
  · exact (OrdSet.mem_filter.mp h).1
  · exact h
  · exact h

theorem onInstanceChangeNotify_breaker (s : Blocking) (changed : InstanceChanged) :
    (s.onInstanceChangeNotify changed).breaker = s.breaker := by
  unfold Blocking.onInstanceChangeNotify
  split <;> rfl

theorem mem_of_mem_onInstanceChangeNotify {changed : InstanceChanged} {id : InstanceId}
    (h : id ∈ (s.onInstanceChangeNotify changed).cbBlockedInstances) : id ∈ s.cbBlockedInstances := by
  unfold Blocking.onInstanceChangeNotify at h
  split at h
  · exact h
  · exact mem_of_mem_unblockRemoved h
  · exact h

/-- A removal that is the next version is patched in. -/
theorem notMem_onInstanceChangeNotify {changed : InstanceChanged} {id : InstanceId}
    (hremoved : id ∈ changed.removed)
    (hnext : s.client.lastInstanceVersion.map (· + 1) = some changed.version) :
    id ∉ (s.onInstanceChangeNotify changed).cbBlockedInstances := by
  obtain ⟨last, hlast, hversion⟩ := Option.map_eq_some_iff.mp hnext
  obtain ⟨version, delta⟩ := changed
  unfold InstanceChanged.removed at hremoved
  split at hremoved
  · next instances hdelta =>
    cases hdelta
    cases hversion
    have hne : instances.isEmpty = false := by
      cases instances with
      | nil => cases hremoved
      | cons inst rest => rfl
    have hpatched : s.client.onInstanceChangeNotify (some (last + 1)) (some ⟨.del, instances⟩) =
        .patched { s.client with
          cache := s.client.cache.applyRemove instances
          lastInstanceVersion := some (last + 1) } := by
      simp [SchedulerClient.onInstanceChangeNotify, SchedulerClient.tryApplyInstanceDelta, hlast, hne]
    simp only [Blocking.onInstanceChangeNotify, hpatched, unblockRemoved, OrdSet.mem_filter]
    exact fun hand => of_decide_eq_true hand.2 hremoved
  · cases hremoved
  · cases hremoved

theorem allHonest_onInstanceChangeNotify {changed : InstanceChanged}
    (hheard : ∀ id, Honest s.breaker (hear id (decide (id ∈ s.cbBlockedInstances)) (.instances changed)) id)
    (hlearns : ∀ id ∈ changed.removed, id ∈ s.cbBlockedInstances → s.breaker.cbManager.isOpen id = true ∨
      s.isAnnounced id = true ∨ s.client.lastInstanceVersion.map (· + 1) = some changed.version) :
    (s.onInstanceChangeNotify changed).AllHonest := by
  intro id
  rw [onInstanceChangeNotify_breaker]
  by_cases hstays : id ∈ changed.removed ∧ id ∈ (s.onInstanceChangeNotify changed).cbBlockedInstances
  · -- the worker does not learn of the removal, and need not
    obtain ⟨hremoved, hblocked⟩ := hstays
    rcases hlearns id hremoved (mem_of_mem_onInstanceChangeNotify hblocked) with
      hopen | hannounced | hnext
    · exact fun _ => Or.inl hopen
    · rcases (Bool.or_eq_true _ _).mp hannounced with hpending | habout
      · exact fun _ => Or.inr (of_decide_eq_true hpending)
      · exact fun hbelieved => hheard id ((believed_announced habout _ _).trans hbelieved)
    · exact absurd hblocked (notMem_onInstanceChangeNotify hremoved hnext)
  · refine (hheard id).mono fun hblocked => ?_
    have hblocked' := of_decide_eq_true hblocked
    have hnot : id ∉ changed.removed := fun hremoved => hstays ⟨hremoved, hblocked'⟩
    simp [hear, mem_of_mem_onInstanceChangeNotify hblocked', hnot]

theorem AllHonest.receive {publication : Publication} {channel : List Publication} (h : s.AllHonest)
    (hlearns : s.LearnsRemovals .receive) (hchannel : s.breaker.channel = publication :: channel) :
    ({ s with breaker := { s.breaker with channel := channel } }.receive publication).AllHonest := by
  have hheard : ∀ id, Honest { s.breaker with channel := channel }
      (hear id (decide (id ∈ s.cbBlockedInstances)) publication) id := by
    intro id hbelieved
    apply h id
    rw [hchannel]
    exact hbelieved
  cases publication with
  | instances changed =>
    refine allHonest_onInstanceChangeNotify hheard fun id hremoved hblocked => ?_
    have hwhy := hlearns.2 changed (by simp [taken, hchannel]) id hremoved hblocked
    simpa [isAnnounced, hchannel, Publication.isAbout] using hwhy
  | circuit id' state =>
    intro id
    have hid := hheard id
    simp only [hear] at hid
    -- the worker now believes what it has heard
    have hnow : decide (id ∈ ({ s with breaker := { s.breaker with channel := channel }
        }.onCircuitBreakerChange id' state).cbBlockedInstances) =
        if id' = id then decide (state = .open) else decide (id ∈ s.cbBlockedInstances) := by
      by_cases heq : id' = id
      · cases state <;> simp [onCircuitBreakerChange, heq]
      · cases state <;> simp [onCircuitBreakerChange, heq, Ne.symm heq]
    cases state <;> exact hnow ▸ hid

theorem AllHonest.finishGet (h : s.AllHonest) (call : GetCall) (reply : Option Reply)
    (outcome : AttachOutcome) : (s.finishGet call reply outcome).AllHonest := by
  apply h.shrink
  · rfl
  · intro id hid
    simp only [Blocking.finishGet] at hid
    split at hid
    · exact (OrdSet.mem_filter.mp hid).1
    · exact hid

theorem AllHonest.exec {l : BlockingStep} (h : s.AllHonest) (hlearns : s.LearnsRemovals l)
    (hs : s.exec l = some s') : s'.AllHonest := by
  cases l with
  | scheduler l =>
    obtain ⟨breaker, hbreaker, rfl⟩ := Option.map_eq_some_iff.mp hs
    intro id
    apply (h id).exec hbreaker
    intro σ instances hl
    subst hl
    exact hlearns.1 (σ, instances) rfl
  | receive =>
    simp only [Blocking.exec] at hs
    split at hs
    · cases hs
    · split at hs
      · cases hs
      · next hchannel =>
        cases hs
        exact h.receive hlearns hchannel
  | get asked =>
    cases hs
    exact h
  | read stale =>
    cases hs
    simp only [Blocking.read]
    split <;> exact h
  | answer i succeeds =>
    obtain ⟨call, -, hs⟩ := Option.bind_eq_some_iff.mp hs
    split at hs
    · cases hs
      exact h
    · cases hs
  | deliver i outcome =>
    obtain ⟨call, -, hs⟩ := Option.bind_eq_some_iff.mp hs
    obtain ⟨answer, -, rfl⟩ := Option.map_eq_some_iff.mp hs
    have hcalls : AllHonest { s with calls := s.calls.eraseIdx i } := h
    exact hcalls.finishGet call _ outcome
  | timeOut i =>
    obtain ⟨call, -, rfl⟩ := Option.map_eq_some_iff.mp hs
    have hcalls : AllHonest { s with calls := s.calls.eraseIdx i } := h
    exact hcalls.finishGet call none .notFound

end Blocking

/-- **No worker blocks a healthy instance for good**, as long as it learns of the removals of blocked
instances from their publications: whenever nothing is in flight, an instance that the worker has cached
and believes to be blocked has an open circuit. -/
theorem blocked_instance_has_open_circuit {ls : List BlockingStep} {s : Blocking}
    (h : Run Blocking.exec Blocking.LearnsRemovals .start ls s) (hsettled : s.Settled) :
    ∀ id ∈ s.cbBlockedInstances, id ∈ Blocking.cachedIds s.client →
      s.breaker.cbManager.isOpen id = true := by
  have hhonest : s.AllHonest := by
    apply h.invariant_state
    · intro id hbelieved
      simp [believed, Blocking.start, BreakerServer.start] at hbelieved
    · intro s l s' hinv hlearns hs
      exact hinv.exec hlearns hs
  intro id hblocked _
  obtain ⟨hchannel, -, hpending⟩ := hsettled
  have hid := hhonest id
  rw [Honest, hchannel, hpending] at hid
  simpa [believed, hblocked] using hid

/-- A worker starts up, and the circuit of an instance trips. -/
def trippedRun : List BlockingStep :=
  [.scheduler (.refresh .insertion .add [outageInstance]), .get none, .answer 0 true,
    .deliver 0 .attached, .read (some false), .receive, .scheduler (.report 7 .failure),
    .scheduler (.report 7 .failure), .scheduler (.report 7 .failure), .receive]

/-- The instance is removed while its circuit is open, comes back, and its circuit trips again. The worker
hears of everything by publications. -/
def trippedAgain : List BlockingStep :=
  trippedRun ++ [.scheduler (.refresh .insertion .del [outageInstance]), .receive,
    .scheduler (.refresh .insertion .add [outageInstance]), .receive, .scheduler (.report 7 .failure),
    .scheduler (.report 7 .failure), .scheduler (.report 7 .failure), .receive]

theorem blocked_instance_has_open_circuit_tripped :
    ∃ s, Run Blocking.exec Blocking.LearnsRemovals .start trippedAgain s ∧ s.Settled ∧
      7 ∈ s.cbBlockedInstances ∧ s.breaker.cbManager.isOpen 7 = true := by
  have h : (runList Blocking.exec Blocking.LearnsRemovals .start trippedAgain).map (fun s =>
      (s.breaker.channel.length, s.calls.length, s.breaker.closedToPublish,
        s.cbBlockedInstances.elems, Blocking.cachedIds s.client)) = some (0, 0, [], [7], [7]) := by
    rfl
  obtain ⟨s, hs, hf⟩ := Option.map_eq_some_iff.mp h
  simp only [Prod.mk.injEq, List.length_eq_zero_iff] at hf
  obtain ⟨hchannel, hcalls, hpending, hblocked, hcached⟩ := hf
  have hrun := runList_run hs
  have hmem : 7 ∈ s.cbBlockedInstances := by simp [OrdSet.mem_def, hblocked]
  exact ⟨s, hrun, ⟨hchannel, hcalls, hpending⟩, hmem,
    blocked_instance_has_open_circuit hrun ⟨hchannel, hcalls, hpending⟩ 7 hmem (by simp [hcached])⟩

/-- The instance is removed and comes back. The worker learns of the removal from the segment, so it
takes the publication for known and keeps the instance blocked. -/
theorem removed_instance_stays_blocked :
    ∃ s, Run Blocking.exec Free .start
      (trippedRun ++ [.scheduler (.refresh .insertion .del [outageInstance]), .read (some false),
        .answer 0 true, .deliver 0 .attached, .receive,
        .scheduler (.refresh .insertion .add [outageInstance]), .receive]) s ∧
      s.Settled ∧ 7 ∈ s.cbBlockedInstances ∧ 7 ∈ Blocking.cachedIds s.client ∧
      s.breaker.cbManager.isOpen 7 = false := by
  have h : (runList Blocking.exec Free .start
      (trippedRun ++ [.scheduler (.refresh .insertion .del [outageInstance]), .read (some false),
        .answer 0 true, .deliver 0 .attached, .receive,
        .scheduler (.refresh .insertion .add [outageInstance]), .receive])).map (fun s =>
      (s.breaker.channel.length, s.calls.length, s.breaker.closedToPublish,
        s.cbBlockedInstances.elems, Blocking.cachedIds s.client, s.breaker.cbManager.isOpen 7)) =
      some (0, 0, [], [7], [7], false) := by
    rfl
  obtain ⟨s, hs, hf⟩ := Option.map_eq_some_iff.mp h
  simp only [Prod.mk.injEq, List.length_eq_zero_iff] at hf
  obtain ⟨hchannel, hcalls, hpending, hblocked, hcached, hclosed⟩ := hf
  exact ⟨s, runList_run hs, ⟨hchannel, hcalls, hpending⟩, by simp [OrdSet.mem_def, hblocked],
    by simp [hcached], hclosed⟩

end PyMotor.Coordinator
