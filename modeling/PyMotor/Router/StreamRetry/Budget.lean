import PyMotor.Router.StreamRetry.Replay

/-!
# The token budget of a stream

A request says how many tokens it wants at most. A leg that resumes it asks for what is left of that
number, which is recomputed from the cache of output tokens, and for one token at least
(`RetryRequestPlan.limitTokens`; `PrefillContextBudget` in `common/resources/dispatch.py` follows the
same rule). So a stream may go over its budget by one token for each leg that is started when the budget
is used up, and by no more (`tokens_within_budget`), as long as what was sent is in the cache and the
number is where the resumed request has it.
-/

namespace PyMotor.Router

/-! ## Budgets -/

/-- The number of tokens that a request asks for: the chat interface prefers the newer field, the other
one does not know it. -/
def ReqData.budget (d : ReqData) : Option ℤ :=
  match if d.messages.isSome then d.maxCompletionTokens else .absent, d.maxTokens with
  | .int k, _ => some k
  | _, .int k => some k
  | _, _ => none

/-- In a chat, the newer field is a number, or it is not there. -/
def ReqData.CountsTokens (d : ReqData) : Prop :=
  d.messages.isSome = true → d.maxCompletionTokens ≠ .invalid

instance (d : ReqData) : Decidable d.CountsTokens := inferInstanceAs (Decidable (_ → _))

structure PrefillContextBudget where
  maxOutputTokens : ℤ
  parameter : String

/-- `after_output_tokens`. -/
def PrefillContextBudget.afterOutputTokens (b : PrefillContextBudget) (consumed : ℕ) :
    PrefillContextBudget :=
  if consumed = 0 then b else { b with maxOutputTokens := max 1 (b.maxOutputTokens - consumed) }

/-- The check before the prefill and the resumed request have the same budget. -/
theorem PrefillContextBudget.afterOutputTokens_eq_limitTokens {plan : RetryRequestPlan}
    (hcached : plan.cachedOutputTokens ≠ 0) (b : PrefillContextBudget) :
    plan.limitTokens (.int b.maxOutputTokens) =
      .int (b.afterOutputTokens plan.cachedOutputTokens).maxOutputTokens := by
  rw [afterOutputTokens, if_neg hcached]
  rfl

theorem RetryRequestPlan.budget_apply {plan : RetryRequestPlan} {d : ReqData} {m : ℤ}
    (hchat : plan.removeChatFields = d.messages.isSome) (hcounts : d.CountsTokens)
    (hm : d.budget = some m) :
    (plan.apply d false).1.budget = some (max 1 (m - plan.cachedOutputTokens)) := by
  cases hmessages : d.messages with
  | none =>
    have hmax : d.maxTokens = .int m := by
      simp only [ReqData.budget, hmessages, Option.isSome_none, Bool.false_eq_true, if_false] at hm
      split at hm <;> simp_all
    simp [ReqData.budget, RetryRequestPlan.apply, hchat, hmessages, hmax, limitTokens]
  | some ms =>
    have hmax : (removeChat d).maxTokens = .int m := by
      have hne := hcounts (by rw [hmessages]; rfl)
      simp only [ReqData.budget, hmessages, Option.isSome_some, if_true] at hm
      unfold removeChat
      cases hnewer : d.maxCompletionTokens with
      | absent =>
        simp only [hnewer] at hm
        split at hm <;> simp_all
      | int k => simp_all
      | invalid => exact absurd hnewer hne
    have hgone : (removeChat d).messages = none := rfl
    simp [ReqData.budget, RetryRequestPlan.apply, hchat, hmessages, hmax, hgone, limitTokens]

theorem RequestInfo.plan_counts {q : RequestInfo} {plan : RetryRequestPlan}
    (h : q.buildRetryPlan = .ok (some plan)) :
    plan.cachedOutputTokens = q.cachedTokenIds.length ∧ q.cachedTokenIds ≠ [] := by
  unfold buildRetryPlan at h
  split at h
  · cases h
  · next hids =>
    simp only [Bool.or_eq_true, List.isEmpty_iff, not_or] at hids
    grind

/-! ## Tokens -/

def tokenCount : List Piece → ℕ
  | [] => 0
  | .tokens _ ids :: ps => ids.length + tokenCount ps
  | .untracked :: ps => tokenCount ps

theorem tokenCount_of_isFirst {ps : List Piece} (h : ∀ p ∈ ps, p.isFirst = true) :
    tokenCount ps = (firstIds ps).length := by
  induction ps with
  | nil => rfl
  | cons p ps ih =>
    have hrest := ih fun q hq => h q (.tail _ hq)
    match p with
    | .tokens 0 ids => simp [tokenCount, firstIds, hrest]
    | .tokens (i + 1) ids => simpa [Piece.isFirst] using h _ (.head _)
    | .untracked => simpa [tokenCount, firstIds] using hrest

/-! ## Legs -/

/-- The leg whose frames the client gets. -/
def Strategy.streamingLeg : Strategy → Leg
  | pdHybrid => .engine
  | unifiedPd => .decode

theorem Strategy.streamingLeg_mem (strategy : Strategy) : strategy.streamingLeg ∈ strategy.legs := by
  cases strategy <;> decide

theorem Strategy.eq_streamingLeg {strategy : Strategy} {leg : Leg} (hleg : leg ∈ strategy.legs)
    (hne : leg ≠ .prefill) : leg = strategy.streamingLeg := by
  cases strategy <;> cases leg <;> simp_all [legs, streamingLeg]

/-- A leg that was started when `m` tokens or more had been sent. -/
def Forward.isLate (m : ℤ) (f : Forward) : Bool :=
  decide (f.leg ≠ .prefill) && decide (m ≤ tokenCount f.sent)

def lateLegs (m : ℤ) (forwards : List Forward) : ℕ := forwards.countP (·.isLate m)

namespace StreamState

variable {cfg : StreamConfig} {s : StreamState} {m : ℤ} {d : ReqData}

/-- The leg whose frames arrive. -/
def currentLeg (s : StreamState) : Option Forward :=
  (s.forwards.filter fun f => decide (f.leg ≠ .prefill)).getLast?

/-- One step, whatever the engines report of the prompt. -/
def execLegs (cfg : StreamConfig) (s : StreamState) : RetryOp → Option StreamState
  | .chunk c feasible =>
    if s.isStreaming cfg ∧ s.controller.committed then some (s.deliver cfg c feasible) else none
  | op => s.exec cfg [] op

/-! ## The condition -/

/-- With the frame, the leg does not exceed what it was asked for. -/
def WithinLeg (s : StreamState) (c : StreamChunk) : Prop :=
  ∀ f ∈ s.currentLeg, ∀ k ∈ f.request.budget,
    (tokenCount (s.sent ++ c.output) : ℤ) ≤ tokenCount f.sent + k

/-- The tokens that were sent are accounted for: they came in first choices, the hybrid router knows the
prompt, and a number of tokens is where it is looked for. -/
def Accounted (cfg : StreamConfig) (s : StreamState) : Prop :=
  (tokenCount s.sent ≠ 0 → (∀ p ∈ s.sent, p.isFirst = true) ∧
    (cfg.strategy = .pdHybrid → s.info.promptTokenIds ≠ [])) ∧
  (s.info.cachedTokenIds ≠ [] → s.info.reqData.CountsTokens)

instance (cfg : StreamConfig) (s : StreamState) : Decidable (s.Accounted cfg) := by
  unfold Accounted
  infer_instance

/-- The router goes on after a failure. -/
def resumes (cfg : StreamConfig) (s : StreamState) (e : Failure) (feasible : Bool) : Bool :=
  s.shouldResume cfg feasible || s.retries cfg e

/-- No engine exceeds what it was asked for. -/
def EnginesObey (s : StreamState) : RetryOp → Prop
  | .chunk c _ => s.WithinLeg c
  | _ => True

/-- What was sent is accounted for when the router goes on. -/
def Accounts (cfg : StreamConfig) (s : StreamState) : RetryOp → Prop
  | .chunk c feasible => s.phase matches .running _ _ → (s.process cfg c).frame = none →
    (s.received cfg c).resumes cfg .other feasible = true → (s.received cfg c).Accounted cfg
  | .fail e feasible =>
    s.phase matches .running _ _ → s.resumes cfg e feasible = true → s.Accounted cfg
  | _ => True

instance (s : StreamState) (c : StreamChunk) : Decidable (s.WithinLeg c) := by
  unfold WithinLeg
  infer_instance

instance (s : StreamState) : ∀ op, Decidable (s.EnginesObey op)
  | .chunk c _ => inferInstanceAs (Decidable (s.WithinLeg c))
  | .start _ | .schedule | .post _ | .accepted _ | .commit | .finish | .fail _ _ | .abandon =>
    isTrue trivial

instance (cfg : StreamConfig) (s : StreamState) : ∀ op, Decidable (s.Accounts cfg op)
  | .chunk _ _ => inferInstanceAs (Decidable (_ → _ → _ → _))
  | .fail _ _ => inferInstanceAs (Decidable (_ → _ → _))
  | .start _ | .schedule | .post _ | .accepted _ | .commit | .finish | .abandon =>
    isTrue trivial

/-! ## The invariant -/

/-- What holds in every phase of a request with the fields `d` and the budget `m`. -/
structure Spent (cfg : StreamConfig) (d : ReqData) (m : ℤ) (s : StreamState) : Prop where
  enabled : s.rescheduler.enable = cfg.rescheduleEnabled
  reqData : s.info.reqData = d
  cached : cfg.rescheduleEnabled = true → (firstIds s.sent).length ≤ s.info.cachedTokenIds.length
  body : s.sent ≠ [] → s.bodySent = true
  resumable : tokenCount s.sent ≠ 0 → cfg.rescheduleEnabled = true ∨ s.firstChunkSent = true
  within : (tokenCount s.sent : ℤ) ≤ m + lateLegs m s.forwards

/-- The next leg will ask for what is left. -/
def PlanCounts (cfg : StreamConfig) (s : StreamState) : Prop :=
  (tokenCount s.sent ≠ 0 → cfg.rescheduleEnabled = true ∧ ∃ plan, s.plan = some plan ∧
    tokenCount s.sent ≤ plan.cachedOutputTokens) ∧
  ∀ plan, s.plan = some plan →
    plan.removeChatFields = s.info.reqData.messages.isSome ∧ s.info.reqData.CountsTokens

/-- The leg that is streaming asked for what was left. -/
def Room (m : ℤ) (s : StreamState) : Prop :=
  ∃ f k, s.currentLeg = some f ∧ f.request.budget = some k ∧
    (tokenCount f.sent : ℤ) + k ≤ m + lateLegs m s.forwards

/-- What holds in addition, depending on the phase. -/
def PhaseCounts (cfg : StreamConfig) (m : ℤ) (s : StreamState) : Prop :=
  match s.phase with
  | .starting => (tokenCount s.sent ≠ 0 → s.attempt ≠ 0 ∧ cfg.rescheduleEnabled = true ∧
      s.info.promptTokenIds ≠ [] ∧ tokenCount s.sent ≤ s.info.cachedTokenIds.length) ∧
    (s.attempt ≠ 0 → s.info.cachedTokenIds ≠ [] → s.info.reqData.CountsTokens)
  | .running _ posted =>
    (cfg.strategy.streamingLeg ∉ posted → s.PlanCounts cfg) ∧
      (cfg.strategy.streamingLeg ∈ posted → s.Room m)
  | .fallback posted => (posted = false → s.PlanCounts cfg) ∧ (posted = true → s.Room m)
  | .ended _ => True

theorem phaseCounts_running {scheduled : Bool} {posted : List Leg} (hphase : s.phase = .running scheduled posted)
    (hplan : cfg.strategy.streamingLeg ∉ posted → s.PlanCounts cfg)
    (hroom : cfg.strategy.streamingLeg ∈ posted → s.Room m) : s.PhaseCounts cfg m := by
  unfold PhaseCounts
  rw [hphase]
  exact ⟨hplan, hroom⟩

theorem phaseCounts_fallback (hphase : s.phase = .fallback true) (hroom : s.Room m) :
    s.PhaseCounts cfg m := by
  unfold PhaseCounts
  rw [hphase]
  exact ⟨fun h => absurd h.symm Bool.false_ne_true, fun _ => hroom⟩

structure Counts (cfg : StreamConfig) (d : ReqData) (m : ℤ) (s : StreamState) : Prop where
  spent : s.Spent cfg d m
  phase : s.PhaseCounts cfg m

theorem ne_nil_of_tokenCount {ps : List Piece} (h : tokenCount ps ≠ 0) : ps ≠ [] := by
  rintro rfl
  exact h rfl

/-! ## Failures -/

theorem canResume_spec {r : Rescheduler} {q : RequestInfo} (h : r.canResumeAfterVisibleOutput q = true) :
    r.enable = true ∧ q.promptTokenIds ≠ [] := by
  simp only [Rescheduler.canResumeAfterVisibleOutput, Bool.and_eq_true, Bool.not_eq_true',
    List.isEmpty_eq_false_iff] at h
  exact ⟨h.1.1.1.1.1.1, h.1.1.1.2⟩

/-- After tokens, a router goes on only if tokens are replayed; the one for separate prefill and decode
needs to know the prompt. -/
theorem Spent.enabled_of_resumes (h : s.Spent cfg d m) {e : Failure} {feasible : Bool}
    (hsent : tokenCount s.sent ≠ 0) (hgo : s.resumes cfg e feasible = true) :
    cfg.rescheduleEnabled = true ∧ (cfg.strategy = .unifiedPd → s.info.promptTokenIds ≠ []) := by
  have hbody := h.body (ne_nil_of_tokenCount hsent)
  have hcan : s.rescheduler.canResumeAfterVisibleOutput s.info = true →
      cfg.rescheduleEnabled = true ∧ (cfg.strategy = .unifiedPd → s.info.promptTokenIds ≠ []) := by
    intro hcan
    obtain ⟨henable, hprompt⟩ := canResume_spec hcan
    exact ⟨h.enabled ▸ henable, fun _ => hprompt⟩
  rw [resumes, Bool.or_eq_true] at hgo
  rcases hgo with hresume | hretry
  · simp only [shouldResume, Bool.and_eq_true] at hresume
    exact hcan hresume.1.2
  · unfold retries at hretry
    split at hretry
    · next hstrategy =>
      refine ⟨?_, fun hunified => by rw [hstrategy] at hunified; cases hunified⟩
      unfold pdHybridRetries at hretry
      split at hretry
      · simp_all
      · split at hretry
        · rcases h.resumable hsent with henabled | hfirst
          · exact henabled
          · simp [hfirst] at hretry
        · simp_all
    · have hallowed : s.streamRetryAllowed = true := by
        cases e <;> simp_all [unifiedPdRetries]
      apply hcan
      simpa [streamRetryAllowed, hbody] using hallowed

theorem Spent.counted (h : s.Spent cfg d m) {e : Failure} {feasible : Bool}
    (hsent : tokenCount s.sent ≠ 0) (hgo : s.resumes cfg e feasible = true)
    (haccounted : s.Accounted cfg) :
    cfg.rescheduleEnabled = true ∧ s.info.promptTokenIds ≠ [] ∧
      tokenCount s.sent ≤ s.info.cachedTokenIds.length := by
  obtain ⟨henabled, hunified⟩ := h.enabled_of_resumes hsent hgo
  obtain ⟨hfirst, hhybrid⟩ := haccounted.1 hsent
  refine ⟨henabled, ?_, ?_⟩
  · cases hstrategy : cfg.strategy with
    | pdHybrid => exact hhybrid hstrategy
    | unifiedPd => exact hunified hstrategy
  · rw [tokenCount_of_isFirst hfirst]
    exact h.cached henabled

theorem Spent.enterFallback (h : s.Spent cfg d m) (plan : Option RetryRequestPlan) :
    (s.enterFallback cfg plan).Spent cfg d m where
  enabled := rfl
  reqData := h.reqData
  cached := h.cached
  body := h.body
  resumable := h.resumable
  within := h.within

theorem Spent.setPhase (h : s.Spent cfg d m) (phase : Phase) (attempt : ℕ) :
    Spent cfg d m { s with phase := phase, attempt := attempt } where
  enabled := h.enabled
  reqData := h.reqData
  cached := h.cached
  body := h.body
  resumable := h.resumable
  within := h.within

theorem Counts.ended (h : s.Spent cfg d m) (how : StreamEnd) : (s.end how).Counts cfg d m :=
  ⟨h.setPhase _ _, trivial⟩

theorem Counts.onFailure (h : s.Spent cfg d m) (e : Failure) (feasible : Bool)
    (hguard : s.resumes cfg e feasible = true → s.Accounted cfg) :
    (s.onFailure cfg e feasible).Counts cfg d m := by
  unfold StreamState.onFailure
  split
  · -- nothing was sent if the request is restarted
    next hrestart =>
      have hsent : s.sent = [] := by
        by_contra hsent
        simp [shouldRestart, h.body hsent] at hrestart
      refine ⟨h.enterFallback none, fun _ => ⟨fun hcount => ?_, fun plan hplan => by cases hplan⟩,
        fun hposted => by cases hposted⟩
      exact absurd (congrArg tokenCount hsent) hcount
  · split
    · next hresume =>
      have hgo : s.resumes cfg e feasible = true := by rw [resumes, hresume, Bool.true_or]
      have haccounted := hguard hgo
      split
      · next plan hplan =>
        obtain ⟨hcached, hne⟩ := RequestInfo.plan_counts hplan
        refine ⟨h.enterFallback (some plan), fun _ => ⟨fun hcount => ?_, fun plan' hplan' => ?_⟩,
          fun hposted => by cases hposted⟩
        · obtain ⟨henabled, -, hle⟩ := h.counted hcount hgo haccounted
          exact ⟨henabled, plan, rfl, hcached.symm ▸ hle⟩
        · cases hplan'
          exact ⟨(RequestInfo.plan_spec hplan).2.1, haccounted.2 hne⟩
      · exact .ended h _
    · split
      · next hretry =>
        have hgo : s.resumes cfg e feasible = true := by rw [resumes, hretry, Bool.or_true]
        have haccounted := hguard hgo
        refine ⟨h.setPhase _ _, fun hcount => ?_, fun _ hne => haccounted.2 hne⟩
        exact ⟨Nat.succ_ne_zero _, h.counted hcount hgo haccounted⟩
      · exact .ended h _

/-! ## Legs that start -/

theorem Spent.prepareAttempt (h : s.Spent cfg d m) : (s.prepareAttempt cfg).Spent cfg d m := by
  unfold StreamState.prepareAttempt
  cases cfg.strategy
  all_goals exact
    { enabled := h.enabled, reqData := h.reqData, cached := h.cached, body := h.body
      resumable := h.resumable, within := h.within }

theorem Counts.start (h : s.Counts cfg d m) (hstarting : s.phase = .starting) (feasible : Bool) :
    (s.startAttempt cfg feasible).Counts cfg d m := by
  have hphase := h.phase
  simp only [PhaseCounts, hstarting] at hphase
  obtain ⟨hready, hcounts⟩ := hphase
  have hspent : (s.prepareAttempt cfg).Spent cfg d m := h.spent.prepareAttempt
  unfold startAttempt
  split
  · next plan hplan =>
    refine ⟨?_, fun _ => ⟨fun hcount => ?_, fun plan' hplan' => ?_⟩,
      fun hposted => absurd hposted List.not_mem_nil⟩
    · exact
        { enabled := hspent.enabled, reqData := hspent.reqData, cached := hspent.cached
          body := hspent.body, resumable := hspent.resumable, within := hspent.within }
    · rw [prepareAttempt_sent] at hcount
      obtain ⟨hattempt, henabled, hprompt, hle⟩ := hready hcount
      have hcached : s.info.cachedTokenIds ≠ [] := by
        intro hnil
        rw [hnil] at hle
        exact hcount (Nat.le_zero.mp hle)
      unfold StreamState.attemptPlan at hplan
      rw [if_neg (by simp [hattempt, henabled])] at hplan
      obtain ⟨p, rfl⟩ := RequestInfo.plan_exists hplan hprompt hcached
      refine ⟨henabled, p, rfl, ?_⟩
      rw [prepareAttempt_sent, (RequestInfo.plan_counts hplan).1]
      exact hle
    · have hplan' : plan = some plan' := hplan'
      subst hplan'
      rw [prepareAttempt_info]
      unfold StreamState.attemptPlan at hplan
      split at hplan
      · cases hplan
      · next hattempt =>
        rw [not_or] at hattempt
        exact ⟨(RequestInfo.plan_spec hplan).2.1,
          hcounts hattempt.1 (RequestInfo.plan_counts hplan).2⟩
  · next error herror =>
    refine .onFailure hspent _ _ fun hgo => ?_
    -- where a plan is refused, nothing is resumed
    rw [resumes, retries_http, Bool.or_false] at hgo
    simp only [shouldResume, Bool.and_eq_true] at hgo
    obtain ⟨plan, hplan⟩ := Rescheduler.plan_of_canResume hgo.1.2
    rw [prepareAttempt_info, attemptPlan_error herror] at hplan
    cases hplan

theorem Spent.setController (h : s.Spent cfg d m) (controller : StreamCommitController) (n : ℕ)
    (phase : Phase) : Spent cfg d m { s with controller, attemptSeq := n, phase } where
  enabled := h.enabled
  reqData := h.reqData
  cached := h.cached
  body := h.body
  resumable := h.resumable
  within := h.within

theorem Counts.scheduled (h : s.Counts cfg d m) (hphase : s.phase = .running false []) :
    (s.scheduled cfg).Counts cfg d m := by
  have hcounts := h.phase
  simp only [PhaseCounts, hphase] at hcounts
  unfold StreamState.scheduled
  split
  · exact ⟨h.spent.setController _ s.attemptSeq _, hcounts⟩
  · exact ⟨h.spent.setController _ _ _, hcounts⟩

theorem lateLegs_append (m : ℤ) (forwards : List Forward) (f : Forward) :
    lateLegs m (forwards ++ [f]) = lateLegs m forwards + if f.isLate m then 1 else 0 := by
  rw [lateLegs, List.countP_append, List.countP_singleton]
  rfl

theorem PlanCounts.budget_attemptRequest (h : s.PlanCounts cfg) (hm : s.info.reqData.budget = some m)
    {leg : Leg} (hleg : leg ≠ .prefill) (api : String) :
    ∃ k, (s.attemptRequest cfg leg api).1.budget = some k ∧
      ((tokenCount s.sent : ℤ) + k ≤ m ∨ (m ≤ tokenCount s.sent ∧ k ≤ 1)) := by
  obtain ⟨hready, hplan⟩ := h
  have hleg' : (leg == .prefill) = false := by simpa using hleg
  have hunplanned : tokenCount s.sent = 0 → (tokenCount s.sent : ℤ) + m ≤ m := by
    intro hzero
    rw [hzero]
    simp
  unfold attemptRequest
  split
  · cases hp : s.plan with
    | none =>
      refine ⟨m, hm, .inl (hunplanned ?_)⟩
      by_contra hcount
      obtain ⟨-, plan, hsome, -⟩ := hready hcount
      rw [hp] at hsome
      cases hsome
    | some plan =>
      obtain ⟨hchat, hcounts⟩ := hplan plan hp
      have hbudget := RetryRequestPlan.budget_apply (d := { s.info.reqData with returnTokenIds := true })
        hchat hcounts hm
      rw [hleg']
      refine ⟨_, hbudget, ?_⟩
      have hle : tokenCount s.sent ≤ plan.cachedOutputTokens := by
        by_cases hcount : tokenCount s.sent = 0
        · omega
        · obtain ⟨-, plan', hsome, hle⟩ := hready hcount
          rw [hp] at hsome
          cases hsome
          exact hle
      omega
  · next hdisabled =>
    refine ⟨m, hm, .inl (hunplanned ?_)⟩
    by_contra hcount
    exact hdisabled (hready hcount).1

theorem Spent.room (h : s.Spent cfg d m) (hm : d.budget = some m) (hplan : s.PlanCounts cfg) {leg : Leg}
    (hleg : leg ≠ .prefill) (api : String) (phase : Phase) :
    Room m { s.forward cfg leg api with phase } := by
  obtain ⟨k, hbudget, hleft⟩ := hplan.budget_attemptRequest (h.reqData.symm ▸ hm) hleg api
  refine ⟨⟨leg, (s.attemptRequest cfg leg api).1, (s.attemptRequest cfg leg api).2, s.sent⟩, k, ?_,
    hbudget, ?_⟩
  · simp [currentLeg, forward, hleg]
  · have hwithin := h.within
    simp only [forward, lateLegs_append, Forward.isLate, Bool.and_eq_true, decide_eq_true_eq]
    split
    · push_cast
      omega
    · next hlate =>
      have hearly : ¬m ≤ tokenCount s.sent := fun hle => hlate ⟨hleg, hle⟩
      push_cast
      omega

theorem Spent.forward (h : s.Spent cfg d m) (hplan : s.PlanCounts cfg) (leg : Leg) (api : String)
    (phase : Phase) : Spent cfg d m { s.forward cfg leg api with phase } where
  enabled := h.enabled
  reqData := h.reqData
  cached := h.cached
  body := h.body
  resumable hcount := .inl (hplan.1 hcount).1
  within := by
    have hwithin := h.within
    simp only [StreamState.forward, lateLegs_append]
    push_cast
    omega

theorem Spent.forward_prefill (h : s.Spent cfg d m) (api : String) (phase : Phase) :
    Spent cfg d m { s.forward cfg .prefill api with phase } where
  enabled := h.enabled
  reqData := h.reqData
  cached := h.cached
  body := h.body
  resumable hcount := by
    simpa [StreamState.forward] using h.resumable hcount
  within := by
    simpa [StreamState.forward, lateLegs_append, Forward.isLate] using h.within

theorem Room.forward_prefill (h : s.Room m) (api : String) (phase : Phase) :
    Room m { s.forward cfg .prefill api with phase } := by
  obtain ⟨f, k, hf, hbudget, hroom⟩ := h
  refine ⟨f, k, ?_, hbudget, ?_⟩
  · simpa [currentLeg, StreamState.forward] using hf
  · simpa [StreamState.forward, lateLegs_append, Forward.isLate] using hroom

theorem Counts.postLeg (h : s.Counts cfg d m) (hm : d.budget = some m) {leg : Leg} {s' : StreamState}
    (hs : s.postLeg cfg leg = some s') : s'.Counts cfg d m := by
  have hphase := h.phase
  unfold StreamState.postLeg at hs
  split at hs
  · next posted hrunning =>
    simp only [PhaseCounts, hrunning] at hphase
    obtain ⟨hplan, hroom⟩ := hphase
    split at hs
    · next hleg =>
      cases hs
      obtain ⟨hleg, hnew⟩ := hleg
      by_cases hprefill : leg = .prefill
      · subst hprefill
        have hother : cfg.strategy.streamingLeg ≠ .prefill := by cases cfg.strategy <;> decide
        have hmem : cfg.strategy.streamingLeg ∈ posted ++ [.prefill] ↔
            cfg.strategy.streamingLeg ∈ posted := by simp [hother]
        by_cases hin : cfg.strategy.streamingLeg ∈ posted
        · refine ⟨h.spent.forward_prefill _ _, phaseCounts_running rfl ?_ fun _ => ?_⟩
          · exact fun hout => absurd (hmem.mpr hin) hout
          · exact (hroom hin).forward_prefill _ _
        · refine ⟨h.spent.forward_prefill _ _, phaseCounts_running rfl (fun _ => hplan hin) ?_⟩
          exact fun hin' => absurd (hmem.mp hin') hin
      · obtain rfl := Strategy.eq_streamingLeg hleg hprefill
        have hplan := hplan hnew
        refine ⟨h.spent.forward hplan _ _ _, phaseCounts_running rfl ?_ fun _ => ?_⟩
        · exact fun hout => absurd (List.mem_append_right _ (List.mem_singleton_self _)) hout
        · exact h.spent.room hm hplan hprefill _ _
    · cases hs
  · next hfallback =>
    simp only [PhaseCounts, hfallback] at hphase
    have hplan : s.PlanCounts cfg := hphase.1 trivial
    split at hs
    · cases hs
      refine ⟨h.spent.forward hplan _ _ _, phaseCounts_fallback rfl ?_⟩
      exact h.spent.room hm hplan (by decide) _ _
    · cases hs
  · cases hs

theorem Counts.setController (h : s.Counts cfg d m) (controller : StreamCommitController) :
    Counts cfg d m { s with controller } :=
  ⟨h.spent.setController _ s.attemptSeq s.phase, h.phase⟩

theorem Counts.legAccepted (h : s.Counts cfg d m) {leg : Leg} {s' : StreamState}
    (hs : s.legAccepted leg = some s') : s'.Counts cfg d m := by
  unfold StreamState.legAccepted at hs
  split at hs
  all_goals first
    | cases hs
    | (split at hs
       · cases hs
         exact h.setController _
       · cases hs)

/-! ## Frames -/

theorem Counts.room (h : s.Counts cfg d m) (hstreaming : s.isStreaming cfg = true) : s.Room m := by
  have hphase := h.phase
  unfold PhaseCounts at hphase
  unfold isStreaming at hstreaming
  cases hs : s.phase with
  | starting => simp [hs] at hstreaming
  | running b posted =>
    simp only [hs, List.all_eq_true, decide_eq_true_eq] at hstreaming hphase
    exact hphase.2 (hstreaming _ cfg.strategy.streamingLeg_mem)
  | fallback posted =>
    simp only [hs] at hstreaming hphase
    exact hphase.2 hstreaming
  | ended how => simp [hs] at hstreaming

theorem phaseCounts_of_isStreaming (hstreaming : s.isStreaming cfg = true) (hroom : s.Room m) :
    s.PhaseCounts cfg m := by
  unfold isStreaming at hstreaming
  cases hs : s.phase with
  | starting => simp [hs] at hstreaming
  | running b posted =>
    simp only [hs, List.all_eq_true, decide_eq_true_eq] at hstreaming
    refine phaseCounts_running hs (fun hout => ?_) fun _ => hroom
    exact absurd (hstreaming _ cfg.strategy.streamingLeg_mem) hout
  | fallback posted =>
    simp only [hs] at hstreaming
    exact phaseCounts_fallback (hstreaming ▸ hs) hroom
  | ended how => simp [hs] at hstreaming

theorem Spent.process (h : s.Spent cfg d m) (c : StreamChunk) :
    (s.process cfg c).rescheduler.enable = cfg.rescheduleEnabled ∧
      (s.process cfg c).info.reqData = d ∧
      (cfg.rescheduleEnabled = true →
        (s.process cfg c).info.cachedTokenIds = s.info.cachedTokenIds ++ c.cachedIds) := by
  by_cases henabled : cfg.rescheduleEnabled = true
  · have hcaches : CachesFrame s.info c (s.rescheduler.processStreamChunk s.info s.roleSent c).info :=
      Rescheduler.processStreamChunk_caches (h.enabled.trans henabled) c
    rw [process_eq henabled]
    exact ⟨(Rescheduler.processStreamChunk_enable c).trans h.enabled, hcaches.reqData.trans h.reqData,
      fun _ => hcaches.cached⟩
  · have hinfo : (s.process cfg c).info = s.info ∧
        (s.process cfg c).rescheduler = s.rescheduler := by
      simp [StreamState.process, henabled]
    rw [hinfo.1, hinfo.2]
    exact ⟨h.enabled, h.reqData, fun hyes => absurd hyes henabled⟩

theorem Spent.received (h : s.Spent cfg d m) (c : StreamChunk) : (s.received cfg c).Spent cfg d m := by
  obtain ⟨henable, hdata, hcached⟩ := h.process c
  refine ⟨henable, hdata, fun henabled => ?_, h.body, fun _ => .inr rfl, h.within⟩
  have hle := h.cached henabled
  have hcache : (s.received cfg c).info.cachedTokenIds = s.info.cachedTokenIds ++ c.cachedIds :=
    hcached henabled
  rw [hcache, List.length_append]
  exact Nat.le_add_right_of_le hle

theorem Spent.delivered (h : s.Spent cfg d m) (hroom : s.Room m) {c : StreamChunk}
    (hwithin : s.WithinLeg c) :
    Spent cfg d m { s.received cfg c with sent := s.sent ++ c.output, bodySent := true } := by
  obtain ⟨henable, hdata, hcached⟩ := h.process c
  refine ⟨henable, hdata, fun henabled => ?_, fun _ => rfl, fun _ => .inr rfl, ?_⟩
  · have hle := h.cached henabled
    have hcache : (s.process cfg c).info.cachedTokenIds = s.info.cachedTokenIds ++ c.cachedIds :=
      hcached henabled
    have hsent : firstIds (s.sent ++ c.output) = firstIds s.sent ++ c.cachedIds := by
      rw [firstIds_append, StreamChunk.firstIds_output]
    simp only [StreamState.received, hcache, hsent, List.length_append]
    omega
  · obtain ⟨f, k, hf, hbudget, hleft⟩ := hroom
    have hspent := hwithin f hf k hbudget
    simp only [StreamState.received]
    omega

theorem Counts.deliver (h : s.Counts cfg d m) {c : StreamChunk} {feasible : Bool}
    (hstreaming : s.isStreaming cfg = true) (hwithin : s.WithinLeg c)
    (hraised : s.Accounts cfg (.chunk c feasible)) : (s.deliver cfg c feasible).Counts cfg d m := by
  have hroom := h.room hstreaming
  unfold StreamState.deliver
  split
  · exact ⟨h.spent.delivered hroom hwithin, phaseCounts_of_isStreaming hstreaming hroom⟩
  · next hnone =>
    have hspent := h.spent.received c
    split
    · exact .ended hspent _
    · next hphase =>
      have hrunning : s.phase matches .running _ _ := by
        unfold isStreaming at hstreaming
        cases hs : s.phase <;> simp_all
      exact .onFailure hspent _ _ (hraised hrunning hnone)

/-! ## Runs -/

theorem Counts.new (cfg : StreamConfig) (info : RequestInfo) (controller : StreamCommitController)
    (hm : 0 ≤ m) : (StreamState.new cfg info controller).Counts cfg info.reqData m where
  spent :=
    { enabled := rfl
      reqData := rfl
      cached := fun _ => Nat.le_refl _
      body := fun h => absurd rfl h
      resumable := fun h => absurd rfl h
      within := by simpa [StreamState.new, tokenCount, lateLegs] using hm }
  phase := ⟨fun h => absurd rfl h, fun h => absurd rfl h⟩

theorem Counts.step {op : RetryOp} {s' : StreamState} (h : s.Counts cfg d m) (hm : d.budget = some m)
    (hobey : s.EnginesObey op) (hguard : s.Accounts cfg op) (hs : s.execLegs cfg op = some s') :
    s'.Counts cfg d m := by
  cases op with
  | start feasible =>
    obtain ⟨hphase, hs⟩ := Option.ite_none_right_eq_some.mp hs
    cases hs
    exact h.start hphase feasible
  | schedule =>
    obtain ⟨hphase, hs⟩ := Option.ite_none_right_eq_some.mp hs
    cases hs
    exact h.scheduled hphase
  | post leg => exact h.postLeg hm hs
  | accepted leg => exact h.legAccepted hs
  | commit =>
    obtain ⟨-, hs⟩ := Option.ite_none_right_eq_some.mp hs
    cases hs
    exact h.setController _
  | chunk c feasible =>
    obtain ⟨⟨hstreaming, -⟩, hs⟩ := Option.ite_none_right_eq_some.mp hs
    cases hs
    exact h.deliver hstreaming hobey hguard
  | finish =>
    obtain ⟨-, hs⟩ := Option.ite_none_right_eq_some.mp hs
    cases hs
    exact .ended h.spent _
  | fail e feasible =>
    simp only [execLegs, exec] at hs
    split at hs
    · next hphase =>
      cases hs
      exact .onFailure h.spent _ _ (hguard (by simp [hphase]))
    · cases hs
      exact .ended h.spent _
    · cases hs
  | abandon =>
    simp only [execLegs, exec] at hs
    split at hs
    · cases hs
    · cases hs
      exact .ended h.spent _

theorem lateLegs_eq_zero {forwards : List Forward}
    (h : ∀ f ∈ forwards, f.leg ≠ .prefill → (tokenCount f.sent : ℤ) < m) : lateLegs m forwards = 0 := by
  rw [lateLegs, List.countP_eq_zero]
  intro f hf
  simp only [Forward.isLate, Bool.and_eq_true, decide_eq_true_eq, not_and, not_le]
  exact h f hf

/-- **All legs of a stream together** stay within the budget of the request, up to one token for each leg
that was started when the budget had been used up, as long as no engine exceeds what it was asked for,
and what was sent is accounted for when the router goes on. -/
theorem tokens_within_budget {info : RequestInfo} {controller : StreamCommitController}
    {ops : List RetryOp} (hm : info.reqData.budget = some m) (hpos : 1 ≤ m)
    (hrun : Run (execLegs cfg) (fun s op => s.EnginesObey op ∧ s.Accounts cfg op)
      (StreamState.new cfg info controller) ops s) :
    (tokenCount s.sent : ℤ) ≤ m + lateLegs m s.forwards ∧
      ((∀ f ∈ s.forwards, f.leg ≠ .prefill → (tokenCount f.sent : ℤ) < m) →
        (tokenCount s.sent : ℤ) ≤ m) := by
  have hcounts : s.Counts cfg info.reqData m :=
    hrun.invariant_state (.new cfg info controller (by omega)) fun h hguard hs => h.step hm hguard.1 hguard.2 hs
  refine ⟨hcounts.spent.within, fun hearly => ?_⟩
  have hwithin := hcounts.spent.within
  rw [lateLegs_eq_zero hearly] at hwithin
  simpa using hwithin

/-- A chat that asks for five tokens. -/
def fiveTokenChat (maxCompletionTokens : NumberField) : RequestInfo where
  reqData :=
    { prompt := none, messages := some [⟨[]⟩], n := .absent, maxTokens := .int 5
      maxCompletionTokens := maxCompletionTokens, responseFormat := none, tools := false, logprobs := false
      topLogprobs := false, otherChatFields := [], returnTokenIds := false }
  api := "v1/chat/completions"
  entryApi := "v1/chat/completions"
  clientExpectsTokenIds := false
  clientExpectsChatShape := true
  promptTokenIds := []
  cachedTokenIds := []

def tokensFrame (ids : List ℕ) : StreamChunk :=
  .json
    { object := some "text_completion"
      promptTokenIds := some [1, 2]
      choices := [some
        { index := 0, text := some (.text "A"), delta := none, message := none, tokenIds := some ids
          promptTokenIds := none, finishReason := none, stopReason := none, logprobsConvert := true }] }

/-- A leg that sends tokens, and fails. -/
def failingLeg (ids : List ℕ) : List RetryOp :=
  [.start false, .schedule, .post .prefill, .post .decode, .accepted .prefill, .accepted .decode, .commit,
    .chunk (tokensFrame ids) false, .fail (.request .readError) false]

/-- With a null in the newer field the resumed request has no limit, and six tokens are sent. -/
theorem nullLimit_exceeded : ∃ s,
    Run (execLegs (retryTwice .unifiedPd)) EnginesObey
        (StreamState.new (retryTwice .unifiedPd) (fiveTokenChat .invalid) (controllerOf .unifiedPd))
        (failingLeg [10, 11, 12] ++ failingLeg [13, 14, 15]) s ∧
      (fiveTokenChat .invalid).reqData.budget = some 5 ∧
      ¬(tokenCount s.sent : ℤ) ≤ 5 + lateLegs 5 s.forwards := by
  have h : (runList (execLegs (retryTwice .unifiedPd)) EnginesObey
      (StreamState.new (retryTwice .unifiedPd) (fiveTokenChat .invalid) (controllerOf .unifiedPd))
      (failingLeg [10, 11, 12] ++ failingLeg [13, 14, 15])).map
        (fun s => (tokenCount s.sent, lateLegs 5 s.forwards)) = some (6, 0) := by decide
  obtain ⟨s, hs, hcount⟩ := Option.map_eq_some_iff.mp h
  obtain ⟨hsent, hlate⟩ := Prod.mk.inj hcount
  refine ⟨s, runList_run hs, by decide, ?_⟩
  rw [hsent, hlate]
  decide

/-- Two legs use up the budget, and a third one sends one more token. -/
theorem threeLegs_within : ∃ s,
    Run (execLegs (retryTwice .unifiedPd))
        (fun s op => s.EnginesObey op ∧ s.Accounts (retryTwice .unifiedPd) op)
        (StreamState.new (retryTwice .unifiedPd) (fiveTokenChat .absent) (controllerOf .unifiedPd))
        (failingLeg [10, 11, 12] ++ failingLeg [13, 14] ++ failingLeg [15]) s ∧
      tokenCount s.sent = 6 ∧ lateLegs 5 s.forwards = 1 ∧
      (tokenCount s.sent : ℤ) ≤ 5 + lateLegs 5 s.forwards := by
  have h : (runList (execLegs (retryTwice .unifiedPd))
      (fun s op => s.EnginesObey op ∧ s.Accounts (retryTwice .unifiedPd) op)
      (StreamState.new (retryTwice .unifiedPd) (fiveTokenChat .absent) (controllerOf .unifiedPd))
      (failingLeg [10, 11, 12] ++ failingLeg [13, 14] ++ failingLeg [15])).map
        (fun s => (tokenCount s.sent, lateLegs 5 s.forwards)) = some (6, 1) := by decide
  obtain ⟨s, hs, hcount⟩ := Option.map_eq_some_iff.mp h
  obtain ⟨hsent, hlate⟩ := Prod.mk.inj hcount
  exact ⟨s, runList_run hs, hsent, hlate,
    (tokens_within_budget (by decide) (by decide) (runList_run hs)).1⟩

end StreamState

end PyMotor.Router
