import PyMotor.Lib.Always
import PyMotor.NodeManager.FaultReporter.Polls

/-!
# What is reported of an endpoint

One status is remembered for each endpoint, however many engines it lists. As long as all engines that an
endpoint lists have the same status, no fault is reported again before something changes, and the controller
is told the status of each engine exactly if no engine changes to the status that is remembered already
(`faults_reported_iff`). When the engines differ, the status remembered changes with each of them and all of it is
reported again in every round.
-/

namespace PyMotor.NodeManager

open FaultReporter

/-- While nothing changes at most one fault is delivered. -/
def ReportsOnce (history : List Poll) : Prop :=
  ∀ later polls earlier, history = later ++ polls ++ earlier →
    (∀ p ∈ polls, ∀ q ∈ polls, p.result.Same q.result) → (polls.flatMap Poll.delivered).length ≤ 1

/-- The status of an engine was delivered since the engine has it. -/
def DeliveredSince (id : ℤ) (status : String) (history : List Poll) : Prop :=
  ∃ later first earlier, history = later ++ first :: earlier ∧ first.result.Lists id status ∧
    (∀ p ∈ later, p.result.reached = true → p.result.Lists id status) ∧
    ∃ p ∈ first :: later, p.Tells status

/-- When the last poll reached the endpoint and no delivery failed, the status of each engine that is not
healthy was delivered since the engine has it. -/
def TellsCurrent (history : List Poll) : Prop :=
  ∀ p earlier, history = p :: earlier → p.result.reached = true →
    (∀ d ∈ p.deliveries, d.succeeded = true) → ∀ id status, p.result.Lists id status →
    status ≠ engineStatusHealthy → DeliveredSince id status history

/-- The last poll that reached the endpoint lists the engine with the status. -/
def LastLists (id : ℤ) (status : String) (history : List Poll) : Prop :=
  ∃ p ∈ history.find? fun p => p.result.reached, p.result.Lists id status

/-- An engine whose status is the one remembered had it already when the endpoint was last reached. -/
def RemembersRightly (_ : List PollMove) (s : FaultReporter) (m : PollMove) : Prop :=
  ∀ id status, m.result.Lists id status → status ≠ engineStatusHealthy →
    s.knownStatuses.get? m.endpointId = some status → LastLists id status (s.history m.endpointId)

variable {s s' : FaultReporter} {m : PollMove} {ms : List PollMove} {history : List Poll} {p : Poll}
  {known known' : Option String} {id : ℤ} {status : String}

/-! ## Nothing is reported twice -/

/-- What was delivered since the last change is remembered. -/
def RemembersReport (known : Option String) (history : List Poll) : Prop :=
  ∀ polls earlier, history = polls ++ earlier →
    (∀ p ∈ polls, ∀ q ∈ polls, p.result.Same q.result) →
    (polls.flatMap Poll.delivered).length ≤ 1 ∧ (polls.flatMap Poll.delivered ≠ [] →
      ∃ status, status ≠ engineStatusHealthy ∧ known = some status ∧ ∀ p ∈ polls, p.result.Has status)

theorem delivered_nil (h : p.deliveries = []) : p.delivered = [] := by
  unfold Poll.delivered
  rw [h]
  rfl

theorem delivered_rejected (h : ∀ d ∈ p.deliveries, d.succeeded = false) : p.delivered = [] :=
  filter_rejected h

/-- A poll that delivers nothing and leaves what is remembered, or else finds nothing remembered. -/
theorem PollSpec.silent_of_known (h : PollSpec p known known') (hill : status ≠ engineStatusHealthy)
    (hknown : known = some status) (hhas : p.result.Has status) :
    p.delivered = [] ∧ known' = known := by
  cases h with
  | nothingListed _ hnone hdeliveries hsame => exact (hnone status hhas).elim
  | healthy hall _ _ => exact absurd ((hall status).mp hhas) hill
  | remembered status' hall _ _ hdeliveries hsame => exact ⟨delivered_nil hdeliveries, hsame⟩
  | waiting _ hdeliveries hsame => exact ⟨delivered_nil hdeliveries, hsame⟩
  | rejected status' hall _ hnew _ _ _ =>
    rw [(hall status).mp hhas] at hknown
    exact absurd hknown hnew
  | delivered status' d hall _ hnew _ _ _ =>
    rw [(hall status).mp hhas] at hknown
    exact absurd hknown hnew

theorem PollSpec.delivered_once (h : PollSpec p known known') :
    p.delivered = [] ∨ p.delivered.length = 1 ∧
      ∃ status, status ≠ engineStatusHealthy ∧ known' = some status ∧ p.result.Has status := by
  cases h with
  | nothingListed _ _ hdeliveries _ => exact Or.inl (delivered_nil hdeliveries)
  | healthy _ hdeliveries _ => exact Or.inl (delivered_nil hdeliveries)
  | remembered _ _ _ _ hdeliveries _ => exact Or.inl (delivered_nil hdeliveries)
  | waiting _ hdeliveries _ => exact Or.inl (delivered_nil hdeliveries)
  | rejected _ _ _ _ _ hrejected _ => exact Or.inl (delivered_rejected hrejected)
  | delivered status d hall hill _ hdelivered _ hnow =>
    refine Or.inr ⟨?_, status, hill, hnow, (hall status).mpr rfl⟩
    rw [hdelivered]
    rfl

theorem PollSpec.remembersReport (h : PollSpec p known known') (hearlier : RemembersReport known history) :
    RemembersReport known' (p :: history) := by
  intro polls earlier hsplit hsame
  cases polls with
  | nil => exact ⟨Nat.zero_le _, fun hnil => absurd rfl hnil⟩
  | cons q polls =>
    obtain ⟨rfl, hrest⟩ := List.cons.inj hsplit
    have hsameRest : ∀ q ∈ polls, ∀ q' ∈ polls, q.result.Same q'.result :=
      fun q hq q' hq' => hsame q (List.mem_cons_of_mem _ hq) q' (List.mem_cons_of_mem _ hq')
    obtain ⟨hlength, hremembers⟩ := hearlier polls earlier hrest hsameRest
    rw [List.flatMap_cons]
    by_cases hbefore : polls.flatMap Poll.delivered = []
    · rw [hbefore, List.append_nil]
      rcases h.delivered_once with hnone | ⟨hone, status, hill, hknown, hhas⟩
      · rw [hnone]
        exact ⟨Nat.zero_le _, fun hnil => absurd rfl hnil⟩
      · refine ⟨hone.le, fun _ => ⟨status, hill, hknown, fun q hq => ?_⟩⟩
        exact ((hsame p List.mem_cons_self q hq).has_iff status).mp hhas
    · -- what was delivered before is remembered, so this poll is silent
      obtain ⟨status, hill, hknown, hall⟩ := hremembers hbefore
      obtain ⟨q, hq⟩ := List.exists_mem_of_ne_nil polls fun hnil => hbefore (hnil ▸ rfl)
      have hhas : p.result.Has status :=
        ((hsame q (List.mem_cons_of_mem _ hq) p List.mem_cons_self).has_iff status).mp (hall q hq)
      obtain ⟨hsilent, hkept⟩ := h.silent_of_known hill hknown hhas
      rw [hsilent, List.nil_append]
      refine ⟨hlength, fun _ => ⟨status, hill, hkept.trans hknown, fun q' hq' => ?_⟩⟩
      rcases List.mem_cons.mp hq' with rfl | hq'
      · exact hhas
      · exact hall q' hq'

theorem reportsOnce_cons (h : RemembersReport known (p :: history)) (hearlier : ReportsOnce history) :
    ReportsOnce (p :: history) := by
  intro later polls earlier hsplit hsame
  cases later with
  | nil => exact (h polls earlier hsplit hsame).1
  | cons q later =>
    obtain ⟨rfl, hrest⟩ := List.cons.inj hsplit
    exact hearlier later polls earlier hrest hsame

/-! ## The controller is told the present status -/

/-- The status remembered was delivered since the engines have it. -/
def RemembersTold (known : Option String) (history : List Poll) : Prop :=
  ∀ status, known = some status → status ≠ engineStatusHealthy → ∀ id, LastLists id status history →
    DeliveredSince id status history

/-- The engines that have the status remembered had it when the endpoint was last reached. -/
def Unchanged (known : Option String) (r : PollResult) (history : List Poll) : Prop :=
  ∀ id status, r.Lists id status → status ≠ engineStatusHealthy → known = some status →
    LastLists id status history

theorem lastLists_reached (hreached : p.result.reached = true) :
    LastLists id status (p :: history) ↔ p.result.Lists id status := by
  unfold LastLists
  rw [List.find?_cons_of_pos (p := fun p : Poll => p.result.reached) hreached]
  simp

theorem lastLists_unreached (hreached : p.result.reached = false) :
    LastLists id status (p :: history) ↔ LastLists id status history := by
  unfold LastLists
  have hnot : ¬p.result.reached = true := by
    rw [hreached]
    exact Bool.false_ne_true
  rw [List.find?_cons_of_neg (p := fun p : Poll => p.result.reached) hnot]

theorem reached_of_lists {r : PollResult} (h : r.Lists id status) : r.reached = true := by
  cases r with
  | failed => exact h.elim
  | malformed => exact h.elim
  | engines entries => rfl

theorem DeliveredSince.cons (h : DeliveredSince id status history)
    (hlists : p.result.reached = true → p.result.Lists id status) :
    DeliveredSince id status (p :: history) := by
  obtain ⟨later, first, earlier, rfl, hfirst, hlater, q, hq, htells⟩ := h
  refine ⟨p :: later, first, earlier, rfl, hfirst, fun q hq => ?_, q, ?_, htells⟩
  · rcases List.mem_cons.mp hq with rfl | hq
    · exact hlists
    · exact hlater q hq
  · rcases List.mem_cons.mp hq with rfl | hq
    · exact List.mem_cons_self
    · exact List.mem_cons_of_mem _ (List.mem_cons_of_mem _ hq)

theorem deliveredSince_now (hlists : p.result.Lists id status) (htells : p.Tells status) :
    DeliveredSince id status (p :: history) :=
  ⟨[], p, history, rfl, hlists, fun _ hq => (nomatch hq), p, List.mem_cons_self, htells⟩

/-- An endpoint that is reported while it is not reached has the status that it had before. -/
theorem deliveredSince_unreached (hlast : LastLists id status history) (hreached : p.result.reached = false)
    (htells : p.Tells status) : DeliveredSince id status (p :: history) := by
  obtain ⟨first, hfirst, hlists⟩ := hlast
  obtain ⟨-, later, earlier, rfl, hlater⟩ := List.find?_eq_some_iff_append.mp hfirst
  refine ⟨p :: later, first, earlier, rfl, hlists, fun q hq hq' => ?_, p,
    List.mem_cons_of_mem _ List.mem_cons_self, htells⟩
  rcases List.mem_cons.mp hq with rfl | hq
  · rw [hreached] at hq'
    cases hq'
  · have hnot := hlater q hq
    rw [hq'] at hnot
    cases hnot

theorem tells_delivered {d : Delivery} (hdelivered : p.delivered = [d])
    (hint : engineStatusNameToInt status = some d.fault.engineStatus) : p.Tells status :=
  ⟨d, hdelivered ▸ List.mem_singleton_self d, hint⟩

theorem PollSpec.remembersTold (h : PollSpec p known known') (hunchanged : Unchanged known p.result history)
    (hearlier : RemembersTold known history) : RemembersTold known' (p :: history) := by
  intro status hknown' hill id hlast
  -- when the poll leaves what is remembered: either it does not say otherwise, or it reaches nothing
  have hkeeps : known' = known → DeliveredSince id status (p :: history) := by
    intro hsame
    have hknown : known = some status := hsame.symm.trans hknown'
    cases hreached : p.result.reached with
    | true =>
      have hlists := (lastLists_reached hreached).mp hlast
      exact (hearlier status hknown hill id (hunchanged id status hlists hill hknown)).cons
        fun _ => hlists
    | false =>
      have hlast := (lastLists_unreached hreached).mp hlast
      refine (hearlier status hknown hill id hlast).cons fun htrue => ?_
      rw [hreached] at htrue
      cases htrue
  cases h with
  | nothingListed _ _ _ hsame => exact hkeeps hsame
  | healthy _ _ hnow =>
    rw [hnow] at hknown'
    exact absurd (Option.some.inj hknown').symm hill
  | remembered _ _ _ _ _ hsame => exact hkeeps hsame
  | waiting _ _ hsame => exact hkeeps hsame
  | rejected _ _ _ _ _ _ hsame => exact hkeeps hsame
  | delivered status' d hall _ _ hdelivered hint hnow =>
    rw [hnow] at hknown'
    cases hknown'
    have htells := tells_delivered hdelivered hint
    cases hreached : p.result.reached with
    | true => exact deliveredSince_now ((lastLists_reached hreached).mp hlast) htells
    | false => exact deliveredSince_unreached ((lastLists_unreached hreached).mp hlast) hreached htells

/-- A poll after which nobody had changed to the status remembered tells all that is to be told. -/
theorem PollSpec.tellsCurrent (h : PollSpec p known known') (hunchanged : Unchanged known p.result history)
    (hearlier : RemembersTold known history) : TellsCurrent (p :: history) := by
  intro q earlier hsplit hreached hworks id status hlists hill
  obtain ⟨rfl, rfl⟩ := List.cons.inj hsplit
  have hhas : p.result.Has status := Or.inr ⟨id, hlists⟩
  cases h with
  | nothingListed _ hnone _ _ => exact (hnone status hhas).elim
  | healthy hall _ _ => exact absurd ((hall status).mp hhas) hill
  | remembered status' hall _ hknown _ _ =>
    cases (hall status).mp hhas
    exact (hearlier status hknown hill id (hunchanged id status hlists hill hknown)).cons
      fun _ => hlists
  | waiting hunreached _ _ =>
    rw [hunreached] at hreached
    cases hreached
  | rejected _ _ _ _ hsome hrejected _ =>
    obtain ⟨d, hd⟩ := List.exists_mem_of_ne_nil _ hsome
    have hfalse := hrejected d hd
    rw [hworks d hd] at hfalse
    cases hfalse
  | delivered status' d hall _ _ hdelivered hint _ =>
    cases (hall status).mp hhas
    exact deliveredSince_now hlists (tells_delivered hdelivered hint)

/-- A poll that tells all that is to be told finds no engine that has changed to the status remembered. -/
theorem PollSpec.unchanged (h : PollSpec p known known') (htells : TellsCurrent (p :: history)) :
    Unchanged known p.result history := by
  intro id status hlists hill hknown
  obtain ⟨hsilent, -⟩ := h.silent_of_known hill hknown (Or.inr ⟨id, hlists⟩)
  have hnone : ∀ d ∈ p.deliveries, d.succeeded = true := by
    cases h with
    | nothingListed _ _ hdeliveries _ =>
      rw [hdeliveries]
      exact fun _ hd => (nomatch hd)
    | healthy _ hdeliveries _ =>
      rw [hdeliveries]
      exact fun _ hd => (nomatch hd)
    | remembered _ _ _ _ hdeliveries _ =>
      rw [hdeliveries]
      exact fun _ hd => (nomatch hd)
    | waiting _ hdeliveries _ =>
      rw [hdeliveries]
      exact fun _ hd => (nomatch hd)
    | rejected status' hall _ hnew _ _ _ =>
      rw [(hall status).mp (Or.inr ⟨id, hlists⟩)] at hknown
      exact absurd hknown hnew
    | delivered _ d _ _ _ hdelivered _ _ =>
      rw [hsilent] at hdelivered
      cases hdelivered
  obtain ⟨later, first, earlier, hsplit, hfirst, hlater, q, hq, d, hd, -⟩ :=
    htells p history rfl (reached_of_lists hlists) hnone id status hlists hill
  cases later with
  | nil =>
    -- it was not told by this poll
    obtain ⟨rfl, -⟩ := List.cons.inj hsplit
    rw [List.mem_singleton.mp hq, hsilent] at hd
    cases hd
  | cons p' later =>
    obtain ⟨rfl, rfl⟩ := List.cons.inj hsplit
    cases hfound : (later ++ first :: earlier).find? fun p => p.result.reached with
    | none =>
      have hunreached := List.find?_eq_none.mp hfound first (List.mem_append_right _ List.mem_cons_self)
      exact absurd (reached_of_lists hfirst) hunreached
    | some last =>
      refine ⟨last, hfound, ?_⟩
      obtain ⟨hreached, before, after, hsplit', hbefore⟩ := List.find?_eq_some_iff_append.mp hfound
      -- the last poll that reached the endpoint is not before the first one with the status
      rcases List.append_eq_append_iff.mp hsplit' with ⟨between, rfl, hbetween⟩ | ⟨between, rfl, hbetween⟩
      · cases between with
        | nil =>
          obtain ⟨rfl, -⟩ := List.cons.inj hbetween
          exact hfirst
        | cons q' between =>
          obtain ⟨rfl, -⟩ := List.cons.inj hbetween
          have hnot := hbefore first (List.mem_append_right _ List.mem_cons_self)
          rw [reached_of_lists hfirst] at hnot
          cases hnot
      · cases between with
        | nil =>
          obtain ⟨rfl, -⟩ := List.cons.inj hbetween
          exact hfirst
        | cons q' between =>
          obtain ⟨rfl, -⟩ := List.cons.inj hbetween
          exact hlater last (List.mem_cons_of_mem _
            (List.mem_append_right _ List.mem_cons_self)) hreached

/-! ## All endpoints -/

theorem exec_reportsOnce (h : ∀ epId, RemembersReport (s.knownStatuses.get? epId) (s.history epId) ∧
      ReportsOnce (s.history epId)) (hone : OneStatus s m) (hexec : s.exec m = some s') :
    ∀ epId, RemembersReport (s'.knownStatuses.get? epId) (s'.history epId) ∧
      ReportsOnce (s'.history epId) := by
  cases hexec
  intro epId
  by_cases heq : m.endpointId = epId
  · subst heq
    obtain ⟨hremembers, honce⟩ := h m.endpointId
    have hnext := (pollEngine_spec s hone).remembersReport hremembers
    rw [history_pollEngine_self]
    exact ⟨hnext, reportsOnce_cons hnext honce⟩
  · rw [get?_pollEngine_ne s heq, history_pollEngine_ne s heq]
    exact h epId

/-- **What is reported**, when all engines that an endpoint lists have the same status: no fault twice before
something changes, and the present status of every engine exactly if no engine changes to the status that is
remembered already. -/
theorem faults_reported_iff (h : Run exec OneStatus .new ms s) :
    (∀ epId, ReportsOnce (s.history epId)) ∧
      (Always exec .new (fun _ s => ∀ epId, TellsCurrent (s.history epId)) ms ↔
        EachStep exec .new RemembersRightly ms) := by
  constructor
  · have hend := h.invariant_state
      (I := fun s => ∀ epId, RemembersReport (s.knownStatuses.get? epId) (s.history epId) ∧
        ReportsOnce (s.history epId)) ?_ fun hI hone hexec => exec_reportsOnce hI hone hexec
    · exact fun epId => (hend epId).2
    · intro epId
      constructor
      · intro polls earlier hsplit _
        obtain ⟨rfl, -⟩ := List.append_eq_nil_iff.mp hsplit.symm
        exact ⟨Nat.zero_le _, fun hnil => absurd rfl hnil⟩
      · intro later polls earlier hsplit _
        obtain ⟨hnil, -⟩ := List.append_eq_nil_iff.mp hsplit.symm
        obtain ⟨-, rfl⟩ := List.append_eq_nil_iff.mp hnil
        exact Nat.zero_le _
  · constructor
    · intro halways
      refine h.eachStep_of_always halways ?_
      rintro ms s m s' - hone - hexec htells
      cases hexec
      have hcurrent := htells m.endpointId
      rw [history_pollEngine_self] at hcurrent
      exact (pollEngine_spec s hone).unchanged hcurrent
    · intro hsteps
      have hboth := h.always_of_eachStep (P := fun _ s => ∀ epId, TellsCurrent (s.history epId) ∧
        RemembersTold (s.knownStatuses.get? epId) (s.history epId)) hsteps ?_ ?_
      · exact fun pre s hpre hrun epId => (hboth pre s hpre hrun epId).1
      · intro epId
        exact ⟨fun p earlier hsplit => (nomatch hsplit), fun status hknown => (nomatch hknown)⟩
      · rintro ms s m s' - hone htold hright hexec
        cases hexec
        intro epId
        by_cases heq : m.endpointId = epId
        · subst heq
          have hspec := pollEngine_spec s hone
          rw [history_pollEngine_self]
          exact ⟨hspec.tellsCurrent hright (htold m.endpointId).2,
            hspec.remembersTold hright (htold m.endpointId).2⟩
        · rw [get?_pollEngine_ne s heq, history_pollEngine_ne s heq]
          exact htold epId

/-- An endpoint is polled and lists these statuses, one for each engine; the first delivery works. -/
def pollListing (statuses : List String) : PollMove where
  config := ⟨"192.168.1.1", 3⟩
  now := 0
  endpointId := 0
  result := .engines (statuses.mapIdx fun id status => ⟨id, some status, none⟩)
  clock := 0
  answers := [true]

/-- Two engines that are both unhealthy, twice: one fault is delivered. -/
theorem unhealthyTwice_reportedOnce :
    ∃ s, Run exec OneStatus .new [pollListing ["unhealthy", "unhealthy"],
        pollListing ["unhealthy", "unhealthy"]] s ∧ ReportsOnce (s.history 0) ∧
      s.polls.map (fun p => p.delivered.length) = [0, 1] := by
  obtain ⟨s, hrun, hdelivered⟩ : ∃ s, Run exec OneStatus .new [pollListing ["unhealthy", "unhealthy"],
        pollListing ["unhealthy", "unhealthy"]] s ∧
      s.polls.map (fun p => p.delivered.length) = [0, 1] := runList_exists (by decide +kernel)
  exact ⟨s, hrun, (faults_reported_iff hrun).1 0, hdelivered⟩

/-- What the poll of an endpoint looks like when the fault of an unhealthy engine was delivered or not. -/
def pollOfListing (statuses : List String) (deliveries : List Delivery) : Poll :=
  ⟨0, (pollListing statuses).result, deliveries⟩

def unhealthyDelivered : Delivery :=
  ⟨⟨"EngineUnhealthyError", "Engine unhealthy", 0, 2, "192.168.1.1"⟩, true⟩

/-- With one engine unhealthy and one healthy the same fault is reported again in every round. And when the
two change places, the one that is unhealthy now is not reported. -/
theorem enginesDiffer_reportedAgain_orNot :
    (∃ s, Run exec Free .new [pollListing ["unhealthy", "healthy"],
        pollListing ["unhealthy", "healthy"]] s ∧ ¬ReportsOnce (s.history 0)) ∧
      ∃ s, Run exec Free .new [pollListing ["healthy", "unhealthy"],
        pollListing ["unhealthy", "healthy"]] s ∧ ¬TellsCurrent (s.history 0) := by
  constructor
  · obtain ⟨s, hrun, hhistory⟩ : ∃ s, Run exec Free .new [pollListing ["unhealthy", "healthy"],
        pollListing ["unhealthy", "healthy"]] s ∧
        s.history 0 = [pollOfListing ["unhealthy", "healthy"] [unhealthyDelivered],
          pollOfListing ["unhealthy", "healthy"] [unhealthyDelivered]] :=
      runList_exists (by decide +kernel)
    refine ⟨s, hrun, fun honce => ?_⟩
    rw [hhistory] at honce
    have hlength := honce [] [_, _] [] rfl fun p hp q hq => by
      rcases List.mem_pair.mp hp with rfl | rfl <;> rcases List.mem_pair.mp hq with rfl | rfl <;>
        exact ⟨rfl, fun _ _ => Iff.rfl⟩
    revert hlength
    decide +kernel
  · obtain ⟨s, hrun, hhistory⟩ : ∃ s, Run exec Free .new [pollListing ["healthy", "unhealthy"],
        pollListing ["unhealthy", "healthy"]] s ∧
        s.history 0 = [pollOfListing ["unhealthy", "healthy"] [],
          pollOfListing ["healthy", "unhealthy"] [unhealthyDelivered]] :=
      runList_exists (by decide +kernel)
    refine ⟨s, hrun, fun htells => ?_⟩
    obtain ⟨later, first, earlier, hsplit, hlists, -, q, hq, d, hd, -⟩ :=
      htells _ _ hhistory rfl (fun d hd => (nomatch hd)) 0 "unhealthy"
        ⟨⟨0, some "unhealthy", none⟩, by decide +kernel, rfl, rfl⟩ (by decide)
    rw [hhistory] at hsplit
    cases later with
    | nil =>
      obtain ⟨rfl, -⟩ := List.cons.inj hsplit
      rw [List.mem_singleton.mp hq] at hd
      cases hd
    | cons p later =>
      obtain ⟨-, hsplit⟩ := List.cons.inj hsplit
      cases later with
      | nil =>
        obtain ⟨rfl, -⟩ := List.cons.inj hsplit
        obtain ⟨engine, hmem, hid, hstatus⟩ := hlists
        change engine ∈ [⟨0, some "healthy", none⟩, ⟨1, some "unhealthy", none⟩] at hmem
        rcases List.mem_pair.mp hmem with rfl | rfl
        · exact absurd hstatus (by decide)
        · exact absurd hid (by decide)
      | cons p later =>
        obtain ⟨-, hsplit⟩ := List.cons.inj hsplit
        exact absurd hsplit.symm (List.append_ne_nil_of_right_ne_nil _ (List.cons_ne_nil _ _))

end PyMotor.NodeManager
