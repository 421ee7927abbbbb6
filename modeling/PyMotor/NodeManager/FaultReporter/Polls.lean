import PyMotor.NodeManager.FaultReporter

/-!
# The polls of an endpoint

What a poll remembers and delivers when all engines that the endpoint lists have the same status
(`pollEngine_spec`): nothing when the status is remembered already, and otherwise deliveries up to the first
one that works. An endpoint that is not reached counts as dead. Polls of other endpoints change nothing.
-/

namespace PyMotor.NodeManager

open FaultReporter

/-! ## What a poll says -/

namespace PollResult

def reached : PollResult → Bool
  | .failed => false
  | .malformed => true
  | .engines _ => true

/-- The engine is listed with the status. -/
def Lists (r : PollResult) (id : ℤ) (status : String) : Prop :=
  match r with
  | .engines entries => ∃ engine ∈ entries, engine.id = id ∧ engine.status = some status
  | _ => False

/-- Neither a status nor whether the endpoint was reached is different. -/
def Same (r r' : PollResult) : Prop :=
  r.reached = r'.reached ∧ ∀ id status, r.Lists id status ↔ r'.Lists id status

/-- A status that the endpoint has; dead if it was not reached. -/
def Has (r : PollResult) (status : String) : Prop :=
  r.reached = false ∧ status = engineStatusDead ∨ ∃ id, r.Lists id status

theorem Same.has_iff {r r' : PollResult} (h : r.Same r') (status : String) :
    r.Has status ↔ r'.Has status := by
  unfold Has
  rw [h.1]
  exact or_congr_right (exists_congr fun id => h.2 id status)

theorem has_failed {status : String} : failed.Has status ↔ status = engineStatusDead := by
  constructor
  · rintro (⟨-, hdead⟩ | ⟨id, hlists⟩)
    · exact hdead
    · exact hlists.elim
  · intro hdead
    exact Or.inl ⟨rfl, hdead⟩

theorem has_engines {entries : List EngineEntry} {status status' : String}
    (hentries : ∀ engine ∈ entries, engine.status = some status) :
    (engines entries).Has status' ↔ entries ≠ [] ∧ status' = status := by
  constructor
  · rintro (⟨hunreached, -⟩ | ⟨id, engine, hmem, -, hlisted⟩)
    · cases hunreached
    · rw [hentries engine hmem] at hlisted
      exact ⟨List.ne_nil_of_mem hmem, (Option.some.inj hlisted).symm⟩
  · rintro ⟨hsome, rfl⟩
    obtain ⟨engine, hmem⟩ := List.exists_mem_of_ne_nil _ hsome
    exact Or.inr ⟨engine.id, engine, hmem, rfl, hentries engine hmem⟩

end PollResult

namespace Poll

/-- What was delivered after the poll. -/
def delivered (p : Poll) : List Delivery := p.deliveries.filter fun d => d.succeeded

/-- The controller was told the status. -/
def Tells (p : Poll) (status : String) : Prop :=
  ∃ d ∈ p.delivered, engineStatusNameToInt status = some d.fault.engineStatus

end Poll

/-- The polls of an endpoint, newest first. -/
def FaultReporter.history (s : FaultReporter) (epId : ℤ) : List Poll :=
  s.polls.filter fun p => decide (p.endpointId = epId)

/-- All engines that the endpoint lists have the same status, and a known one. -/
def OneStatus (_ : FaultReporter) (m : PollMove) : Prop :=
  match m.result with
  | .failed => True
  | .malformed => False
  | .engines entries => ∃ status ∈ [engineStatusHealthy, engineStatusDead, engineStatusUnhealthy],
      ∀ engine ∈ entries, engine.status = some status

instance (s : FaultReporter) (m : PollMove) : Decidable (OneStatus s m) := by
  unfold OneStatus
  cases m.result with
  | failed => exact inferInstanceAs (Decidable True)
  | malformed => exact inferInstanceAs (Decidable False)
  | engines entries => exact inferInstanceAs (Decidable (∃ status ∈ _, ∀ engine ∈ entries, _))

/-! ## What a poll does -/

/-- What a poll of an endpoint with one status comes to, `known` and `known'` being what is remembered
before and after it. -/
inductive PollSpec (p : Poll) (known known' : Option String) : Prop where
  | nothingListed : p.result.reached = true → (∀ status, ¬p.result.Has status) → p.deliveries = [] →
      known' = known → PollSpec p known known'
  | healthy : (∀ status, p.result.Has status ↔ status = engineStatusHealthy) → p.deliveries = [] →
      known' = some engineStatusHealthy → PollSpec p known known'
  | remembered (status : String) : (∀ status', p.result.Has status' ↔ status' = status) →
      status ≠ engineStatusHealthy → known = some status → p.deliveries = [] → known' = known →
      PollSpec p known known'
  | waiting : p.result.reached = false → p.deliveries = [] → known' = known → PollSpec p known known'
  | rejected (status : String) : (∀ status', p.result.Has status' ↔ status' = status) →
      status ≠ engineStatusHealthy → known ≠ some status → p.deliveries ≠ [] →
      (∀ d ∈ p.deliveries, d.succeeded = false) → known' = known → PollSpec p known known'
  | delivered (status : String) (d : Delivery) :
      (∀ status', p.result.Has status' ↔ status' = status) → status ≠ engineStatusHealthy →
      known ≠ some status → p.delivered = [d] →
      engineStatusNameToInt status = some d.fault.engineStatus → known' = some status →
      PollSpec p known known'

variable {x : Sending} {podIp status : String} {epId : ℤ} {entries : List EngineEntry}

theorem get?_sendFault_ne (x : Sending) (fault : FaultData) (status : String) {epId epId' : ℤ}
    (hne : epId ≠ epId') :
    (x.sendFault fault epId status).knownStatuses.get? epId' = x.knownStatuses.get? epId' := by
  unfold Sending.sendFault
  simp only
  split
  · exact Dict.get?_insert_ne _ _ hne
  · rfl

/-- A delivery that works is remembered, one that does not leaves everything as it was. -/
theorem sendFault_spec (x : Sending) (fault : FaultData) (epId : ℤ) (status : String) :
    (∃ d, (x.sendFault fault epId status).deliveries = x.deliveries ++ [d] ∧ d.fault = fault ∧
      d.succeeded = true ∧
      (x.sendFault fault epId status).knownStatuses.get? epId = some status) ∨
    ∃ d, (x.sendFault fault epId status).deliveries = x.deliveries ++ [d] ∧ d.succeeded = false ∧
      (x.sendFault fault epId status).knownStatuses = x.knownStatuses := by
  unfold Sending.sendFault
  simp only
  split
  · next hanswer =>
    refine Or.inl ⟨⟨fault, true⟩, ?_, rfl, rfl, Dict.get?_insert_self _ _ _⟩
    rw [hanswer]
    rfl
  · next hanswer =>
    refine Or.inr ⟨⟨fault, false⟩, ?_, rfl, rfl⟩
    rw [eq_false_of_ne_true hanswer]

theorem processEngineStatus_new (podIp : String) {engine : EngineEntry} {n : ℕ} (hstatus : engine.status = some status)
    (hill : status ≠ engineStatusHealthy) (hint : engineStatusNameToInt status = some n)
    (hnew : x.knownStatuses.get? epId ≠ some status) :
    ∃ fault, fault.engineStatus = n ∧
      x.processEngineStatus podIp epId engine = some (x.sendFault fault epId status) := by
  unfold Sending.processEngineStatus
  simp only [hstatus, if_neg hill, if_neg hnew, hint]
  exact ⟨_, rfl, rfl⟩

theorem processEngineStatus_known {engine : EngineEntry} (hstatus : engine.status = some status)
    (hill : status ≠ engineStatusHealthy) (hknown : x.knownStatuses.get? epId = some status) :
    x.processEngineStatus podIp epId engine = some x := by
  unfold Sending.processEngineStatus
  simp only [hstatus, if_neg hill, if_pos hknown]

theorem processEngines_known (x : Sending) (podIp : String) (hentries : ∀ engine ∈ entries, engine.status = some status)
    (hill : status ≠ engineStatusHealthy) (hknown : x.knownStatuses.get? epId = some status) :
    x.processEngines podIp epId entries = x := by
  induction entries with
  | nil => rfl
  | cons engine entries ih =>
    unfold Sending.processEngines
    rw [processEngineStatus_known (hentries engine List.mem_cons_self) hill hknown]
    exact ih fun engine hmem => hentries engine (List.mem_cons_of_mem _ hmem)

theorem processEngines_healthy (x : Sending) (podIp : String) (epId : ℤ)
    (hentries : ∀ engine ∈ entries, engine.status = some engineStatusHealthy) :
    (x.processEngines podIp epId entries).deliveries = x.deliveries ∧
      (x.processEngines podIp epId entries).knownStatuses.get? epId =
        if entries = [] then x.knownStatuses.get? epId else some engineStatusHealthy := by
  induction entries generalizing x with
  | nil => exact ⟨rfl, rfl⟩
  | cons engine entries ih =>
    unfold Sending.processEngines
    have hfirst : x.processEngineStatus podIp epId engine =
        some (x.remember epId engineStatusHealthy) := by
      unfold Sending.processEngineStatus
      rw [hentries engine List.mem_cons_self]
      exact if_pos rfl
    rw [hfirst]
    obtain ⟨hdeliveries, hknown⟩ := ih (x.remember epId engineStatusHealthy)
      fun engine hmem => hentries engine (List.mem_cons_of_mem _ hmem)
    refine ⟨hdeliveries, hknown.trans ?_⟩
    rw [if_neg (List.cons_ne_nil _ _)]
    split
    · exact Dict.get?_insert_self _ _ _
    · rfl

/-- Entries with one status that is new: the first delivery that works is the last one made. -/
theorem processEngines_new (x : Sending) (podIp : String) {n : ℕ}
    (hentries : ∀ engine ∈ entries, engine.status = some status)
    (hill : status ≠ engineStatusHealthy) (hint : engineStatusNameToInt status = some n)
    (hnew : x.knownStatuses.get? epId ≠ some status) :
    ∃ rejected, (∀ d ∈ rejected, d.succeeded = false) ∧
      ((x.processEngines podIp epId entries).deliveries = x.deliveries ++ rejected ∧
          (rejected = [] → entries = []) ∧
          (x.processEngines podIp epId entries).knownStatuses = x.knownStatuses ∨
        ∃ d, d.succeeded = true ∧ d.fault.engineStatus = n ∧
          (x.processEngines podIp epId entries).deliveries = x.deliveries ++ rejected ++ [d] ∧
          (x.processEngines podIp epId entries).knownStatuses.get? epId = some status) := by
  induction entries generalizing x with
  | nil =>
    refine ⟨[], fun _ hd => (nomatch hd), Or.inl ⟨(List.append_nil _).symm, fun _ => rfl, rfl⟩⟩
  | cons engine entries ih =>
    have hrest : ∀ engine ∈ entries, engine.status = some status :=
      fun engine hmem => hentries engine (List.mem_cons_of_mem _ hmem)
    obtain ⟨fault, hfault, hfirst⟩ := processEngineStatus_new podIp
      (hentries engine List.mem_cons_self) hill hint hnew
    unfold Sending.processEngines
    rw [hfirst]
    simp only
    rcases sendFault_spec x fault epId status with
      ⟨d, hdeliveries, hof, hworks, hknown⟩ | ⟨d, hdeliveries, hfails, hknown⟩
    · rw [processEngines_known _ podIp hrest hill hknown]
      refine ⟨[], fun _ hd => (nomatch hd), Or.inr ⟨d, hworks, hof ▸ hfault, ?_, hknown⟩⟩
      rw [hdeliveries, List.append_nil]
    · obtain ⟨rejected, hrejected, hcases⟩ := ih (x.sendFault fault epId status) hrest
        (by rw [hknown]; exact hnew)
      rw [hdeliveries, hknown, List.append_assoc x.deliveries [d] rejected] at hcases
      refine ⟨[d] ++ rejected, fun d' hd' => ?_, ?_⟩
      · rcases List.mem_cons.mp hd' with rfl | hd'
        · exact hfails
        · exact hrejected d' hd'
      · exact hcases.imp_left fun ⟨h₁, _, h₂⟩ => ⟨h₁, fun hnil => (nomatch hnil), h₂⟩

theorem processEngines_ne {epId' : ℤ} (hne : epId ≠ epId') :
    (x.processEngines podIp epId entries).knownStatuses.get? epId' = x.knownStatuses.get? epId' := by
  induction entries generalizing x with
  | nil => rfl
  | cons engine entries ih =>
    unfold Sending.processEngines
    cases hprocessed : x.processEngineStatus podIp epId engine with
    | none => rfl
    | some x' =>
      refine ih.trans ?_
      unfold Sending.processEngineStatus at hprocessed
      split at hprocessed
      · cases hprocessed
      · next status _ =>
        split at hprocessed
        · cases hprocessed
          exact Dict.get?_insert_ne _ _ hne
        · split at hprocessed
          · cases hprocessed
            rfl
          · split at hprocessed
            · cases hprocessed
              rfl
            · cases hprocessed
              exact get?_sendFault_ne x _ status hne

theorem reportUnreachableDead_ne {failures : ℕ} {firstPoll clock : ℚ} {epId' : ℤ} (hne : epId ≠ epId') :
    (x.reportUnreachableDead podIp epId failures firstPoll clock).knownStatuses.get? epId' =
      x.knownStatuses.get? epId' := by
  unfold Sending.reportUnreachableDead
  split
  · rfl
  · split
    · rfl
    · exact get?_sendFault_ne x _ _ hne

theorem reportUnreachableDead_cases (x : Sending) (podIp : String) (epId : ℤ) (failures : ℕ)
    (firstPoll clock : ℚ) :
    x.reportUnreachableDead podIp epId failures firstPoll clock = x ∨
      x.knownStatuses.get? epId ≠ some engineStatusDead ∧ ∃ fault, fault.engineStatus = 1 ∧
        x.reportUnreachableDead podIp epId failures firstPoll clock =
          x.sendFault fault epId engineStatusDead := by
  unfold Sending.reportUnreachableDead
  by_cases hdead : x.knownStatuses.get? epId = some engineStatusDead
  · exact Or.inl (if_pos hdead)
  · rw [if_neg hdead]
    by_cases hgrace : clock - firstPoll < Sending.startupGraceSec
    · exact Or.inl (if_pos hgrace)
    · exact Or.inr ⟨hdead, _, rfl, if_neg hgrace⟩

variable {s s' : FaultReporter} {m : PollMove} {ms : List PollMove}

theorem get?_pollEngine_ne (s : FaultReporter) {m : PollMove} {epId : ℤ} (hne : m.endpointId ≠ epId) :
    (s.pollEngine m).knownStatuses.get? epId = s.knownStatuses.get? epId := by
  show (s.sending m).knownStatuses.get? epId = s.knownStatuses.get? epId
  unfold sending
  simp only
  split
  · split
    · exact reportUnreachableDead_ne hne
    · rfl
  · rfl
  · exact processEngines_ne hne

theorem history_pollEngine_ne (s : FaultReporter) {m : PollMove} {epId : ℤ} (hne : m.endpointId ≠ epId) :
    (s.pollEngine m).history epId = s.history epId := by
  unfold history
  exact List.filter_cons_of_neg (by simpa using hne)

/-- The poll that a move makes. -/
def FaultReporter.pollOf (s : FaultReporter) (m : PollMove) : Poll :=
  ⟨m.endpointId, m.result, (s.sending m).deliveries⟩

theorem history_pollEngine_self (s : FaultReporter) (m : PollMove) :
    (s.pollEngine m).history m.endpointId = s.pollOf m :: s.history m.endpointId := by
  unfold history
  exact List.filter_cons_of_pos (by simp)

theorem filter_rejected {ds : List Delivery} (h : ∀ d ∈ ds, d.succeeded = false) :
    (ds.filter fun d => d.succeeded) = [] := by
  rw [List.filter_eq_nil_iff]
  intro d hd
  rw [h d hd]
  exact Bool.false_ne_true

theorem engineStatusNameToInt_dead : engineStatusNameToInt engineStatusDead = some 1 := by decide

theorem sending_failed_cases (s : FaultReporter) (hresult : m.result = .failed) :
    s.sending m = ⟨s.knownStatuses, m.answers, []⟩ ∨
      s.knownStatuses.get? m.endpointId ≠ some engineStatusDead ∧ ∃ fault, fault.engineStatus = 1 ∧
        s.sending m = (⟨s.knownStatuses, m.answers, []⟩ : Sending).sendFault fault m.endpointId
          engineStatusDead := by
  unfold sending
  rw [hresult]
  simp only
  split
  · exact reportUnreachableDead_cases ⟨s.knownStatuses, m.answers, []⟩ _ _ _ _ _
  · exact Or.inl rfl

/-- A poll that did not reach the endpoint. -/
theorem failed_spec (s : FaultReporter) (hresult : m.result = .failed) :
    PollSpec (s.pollOf m) (s.knownStatuses.get? m.endpointId)
      ((s.pollEngine m).knownStatuses.get? m.endpointId) := by
  have hhas : ∀ status, (s.pollOf m).result.Has status ↔ status = engineStatusDead := by
    intro status
    show m.result.Has status ↔ _
    rw [hresult]
    exact PollResult.has_failed
  have hunreached : (s.pollOf m).result.reached = false := by
    show m.result.reached = false
    rw [hresult]
    rfl
  rcases sending_failed_cases s hresult with hsilent | ⟨hnew, fault, hfault, hsent⟩
  · exact .waiting hunreached (congrArg Sending.deliveries hsilent)
      (congrArg (fun x : Sending => x.knownStatuses.get? m.endpointId) hsilent)
  · rcases sendFault_spec ⟨s.knownStatuses, m.answers, []⟩ fault m.endpointId engineStatusDead with
      ⟨d, hdeliveries, hof, hworks, hknown⟩ | ⟨d, hdeliveries, hfails, hknown⟩
    · rw [← hsent] at hdeliveries hknown
      refine .delivered engineStatusDead d hhas (by decide) hnew ?_ ?_ hknown
      · show (s.sending m).deliveries.filter _ = [d]
        rw [hdeliveries]
        exact List.filter_cons_of_pos hworks
      · rw [hof, hfault]
        exact engineStatusNameToInt_dead
    · rw [← hsent] at hdeliveries hknown
      refine .rejected engineStatusDead hhas (by decide) hnew ?_ ?_
        (congrArg (·.get? m.endpointId) hknown)
      · show (s.sending m).deliveries ≠ []
        rw [hdeliveries]
        exact List.cons_ne_nil _ _
      · intro d' hd'
        change d' ∈ (s.sending m).deliveries at hd'
        rw [hdeliveries] at hd'
        rw [List.mem_singleton.mp hd']
        exact hfails

/-- A poll that lists engines with one status. -/
theorem engines_spec (s : FaultReporter) (hresult : m.result = .engines entries)
    (hstatus : status ∈ [engineStatusHealthy, engineStatusDead, engineStatusUnhealthy])
    (hentries : ∀ engine ∈ entries, engine.status = some status) :
    PollSpec (s.pollOf m) (s.knownStatuses.get? m.endpointId)
      ((s.pollEngine m).knownStatuses.get? m.endpointId) := by
  have hsending : s.sending m = (⟨s.knownStatuses, m.answers, []⟩ : Sending).processEngines
      m.config.podIp m.endpointId entries := by
    unfold sending
    rw [hresult]
  -- all entries have the one status
  have hhas : ∀ status', (s.pollOf m).result.Has status' ↔ entries ≠ [] ∧ status' = status := by
    intro status'
    show m.result.Has status' ↔ _
    rw [hresult]
    exact PollResult.has_engines hentries
  have hreached : (s.pollOf m).result.reached = true := by
    show m.result.reached = true
    rw [hresult]
    rfl
  by_cases hsome : entries = []
  · subst hsome
    refine .nothingListed hreached (fun status' => ?_) (congrArg Sending.deliveries hsending)
      (congrArg (fun x : Sending => x.knownStatuses.get? m.endpointId) hsending)
    rw [hhas]
    exact fun hlisted => hlisted.1 rfl
  · have hhas' : ∀ status', (s.pollOf m).result.Has status' ↔ status' = status :=
      fun status' => (hhas status').trans (and_iff_right hsome)
    by_cases hhealthy : status = engineStatusHealthy
    · subst hhealthy
      obtain ⟨hdeliveries, hknown⟩ := processEngines_healthy ⟨s.knownStatuses, m.answers, []⟩
        m.config.podIp m.endpointId hentries
      rw [← hsending] at hdeliveries hknown
      rw [if_neg hsome] at hknown
      exact .healthy hhas' hdeliveries hknown
    · by_cases hknown : s.knownStatuses.get? m.endpointId = some status
      · have hsilent := processEngines_known ⟨s.knownStatuses, m.answers, []⟩ m.config.podIp
          hentries hhealthy hknown
        rw [← hsending] at hsilent
        exact .remembered status hhas' hhealthy hknown (congrArg Sending.deliveries hsilent)
          (congrArg (fun x : Sending => x.knownStatuses.get? m.endpointId) hsilent)
      -- a status that is new: each engine tries, until one report is accepted
      · obtain ⟨n, hint⟩ : ∃ n, engineStatusNameToInt status = some n := by
          have hall : ∀ status ∈ [engineStatusHealthy, engineStatusDead, engineStatusUnhealthy],
              (engineStatusNameToInt status).isSome = true := by decide
          exact Option.isSome_iff_exists.mp (hall status hstatus)
        obtain ⟨rejected, hrejected, ⟨hdeliveries, hnone, hsame⟩ | ⟨d, hworks, hof, hdeliveries, hnow⟩⟩ :=
          processEngines_new ⟨s.knownStatuses, m.answers, []⟩ m.config.podIp hentries hhealthy hint hknown
        · rw [← hsending] at hdeliveries hsame
          refine .rejected status hhas' hhealthy hknown ?_ ?_ (congrArg (·.get? m.endpointId) hsame)
          · intro hnil
            exact hsome (hnone (hdeliveries.symm.trans hnil))
          · intro d hd
            change d ∈ (s.sending m).deliveries at hd
            rw [hdeliveries] at hd
            exact hrejected d hd
        · rw [← hsending] at hdeliveries hnow
          refine .delivered status d hhas' hhealthy hknown ?_ (hof ▸ hint) hnow
          show (s.sending m).deliveries.filter _ = [d]
          rw [hdeliveries, List.nil_append, List.filter_append, filter_rejected hrejected]
          exact List.filter_cons_of_pos hworks

theorem pollEngine_spec (s : FaultReporter) (h : OneStatus s m) :
    PollSpec (s.pollOf m) (s.knownStatuses.get? m.endpointId)
      ((s.pollEngine m).knownStatuses.get? m.endpointId) := by
  unfold OneStatus at h
  split at h
  · next hresult => exact failed_spec s hresult
  · exact h.elim
  · next entries hresult =>
    obtain ⟨status, hstatus, hentries⟩ := h
    exact engines_spec s hresult hstatus hentries

end PyMotor.NodeManager
