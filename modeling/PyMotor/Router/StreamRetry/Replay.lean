import PyMotor.Router.StreamRetry

/-!
# Retries neither repeat nor skip output

The cache of output tokens follows what is sent: each frame adds to both, and what it adds to the cache is
what it brings in its first choice. So a replay is right when everything sent was reported in the first
choice. The router for separate prefill and decode asks its rescheduler whether all output came with
tokens before it goes on after output; the hybrid router does not ask.
-/

namespace PyMotor.Router

/-! ## Output and what is cached of it -/

/-- What the cache takes from a frame. -/
def StreamChunk.cachedIds : StreamChunk → List ℕ
  | json j => j.firstTokenIds
  | notObject | unparsed _ _ => []

/-- The tokens of the first choice. -/
def firstIds : List Piece → List ℕ
  | [] => []
  | .tokens 0 ids :: ps => ids ++ firstIds ps
  | .tokens (_ + 1) _ :: ps => firstIds ps
  | .untracked :: ps => firstIds ps

/-- The piece belongs to the first choice, if its tokens are known. -/
def Piece.isFirst : Piece → Bool
  | tokens i _ => i == 0
  | untracked => true

theorem firstIds_append (ps qs : List Piece) : firstIds (ps ++ qs) = firstIds ps ++ firstIds qs := by
  induction ps using firstIds.induct with
  | case1 => rfl
  | case2 ids ps ih => simp [firstIds, ih]
  | case3 i ids ps ih => simpa [firstIds] using ih
  | case4 ps ih => simpa [firstIds] using ih

/-- Output of the first choice all of which is known is what `firstIds` collects. -/
theorem tokensOf_eq_firstIds {ps : List Piece} (hfirst : ∀ p ∈ ps, p.isFirst = true)
    (hknown : Piece.untracked ∉ ps) : tokensOf ps = some (firstIds ps) := by
  induction ps with
  | nil => rfl
  | cons p ps ih =>
    have htail := ih (fun q hq => hfirst q (.tail _ hq)) (fun hq => hknown (.tail _ hq))
    match p with
    | .tokens 0 ids => simp [tokensOf, firstIds, htail]
    | .tokens (i + 1) ids => simpa [Piece.isFirst] using hfirst _ (.head _)
    | .untracked => exact absurd (.head _) hknown

namespace Choice

theorem output_eq_tokens {c : Choice} {i k : ℕ} {ids : List ℕ} (h : .tokens k ids ∈ c.output i) :
    k = i ∧ ids = c.tokenIds.getD [] ∧ ids ≠ [] := by
  unfold output at h
  split at h
  · next hids =>
    simp only [List.mem_singleton, Piece.tokens.injEq] at h
    obtain ⟨rfl, rfl⟩ := h
    refine ⟨rfl, rfl, ?_⟩
    simpa [hasTokenIds] using hids
  · split at h <;> simp at h

theorem untracked_mem_output {c : Choice} {i : ℕ} (h : .untracked ∈ c.output i) :
    c.hasTokenIds = false ∧ c.isVisible = true := by
  unfold output at h
  grind

theorem firstIds_output_zero (c : Choice) : firstIds (c.output 0) = c.tokenIds.getD [] := by
  unfold output
  split
  · simp [firstIds]
  · next hids =>
    have hnone : c.tokenIds.getD [] = [] := by simpa [hasTokenIds] using hids
    rw [hnone]
    split <;> rfl

end Choice

theorem tokens_mem_outputFrom {cs : List (Option Choice)} {i k : ℕ} {ids : List ℕ}
    (h : .tokens k ids ∈ outputFrom i cs) : i ≤ k ∧ ids ≠ [] := by
  induction cs generalizing i with
  | nil => cases h
  | cons c cs ih =>
    cases c with
    | none =>
      obtain ⟨hk, hids⟩ := ih h
      exact ⟨by omega, hids⟩
    | some c =>
      rcases List.mem_append.mp h with h | h
      · obtain ⟨rfl, -, hids⟩ := Choice.output_eq_tokens h
        exact ⟨Nat.le_refl _, hids⟩
      · obtain ⟨hk, hids⟩ := ih h
        exact ⟨by omega, hids⟩

theorem firstIds_eq_nil {ps : List Piece} (h : ∀ k ids, .tokens k ids ∈ ps → 1 ≤ k) :
    firstIds ps = [] := by
  induction ps using firstIds.induct with
  | case1 => rfl
  | case2 ids ps ih => have := h 0 ids (.head _); omega
  | case3 i ids ps ih => exact ih fun k ids hk => h k ids (.tail _ hk)
  | case4 ps ih => exact ih fun k ids hk => h k ids (.tail _ hk)

theorem untracked_mem_outputFrom {cs : List (Option Choice)} {i : ℕ}
    (h : .untracked ∈ outputFrom i cs) :
    cs.any (fun c => c.any fun c => !c.hasTokenIds && c.isVisible) = true := by
  induction cs generalizing i with
  | nil => cases h
  | cons c cs ih =>
    cases c with
    | none => simpa using ih h
    | some c =>
      rcases List.mem_append.mp h with h | h
      · obtain ⟨hids, hvisible⟩ := Choice.untracked_mem_output h
        simp [hids, hvisible]
      · simp [ih h]

namespace StreamChunk

theorem firstIds_output (c : StreamChunk) : firstIds c.output = c.cachedIds := by
  match c with
  | .json ⟨_, _, []⟩ => rfl
  | .json ⟨_, _, none :: cs⟩ =>
    show firstIds (outputFrom 1 cs) = []
    exact firstIds_eq_nil fun k ids hk => (tokens_mem_outputFrom hk).1
  | .json ⟨_, _, some c :: cs⟩ =>
    have hrest : firstIds (outputFrom 1 cs) = [] :=
      firstIds_eq_nil fun k ids hk => (tokens_mem_outputFrom hk).1
    show firstIds (c.output 0 ++ outputFrom 1 cs) = c.tokenIds.getD []
    rw [firstIds_append, hrest, Choice.firstIds_output_zero, List.append_nil]
  | .notObject => rfl
  | .unparsed true true | .unparsed true false | .unparsed false _ => rfl

theorem tokens_mem_output {c : StreamChunk} {k : ℕ} {ids : List ℕ} (h : .tokens k ids ∈ c.output) :
    ids ≠ [] := by
  match c with
  | .json j => exact (tokens_mem_outputFrom h).2
  | .unparsed true true => simp [output] at h
  | .unparsed true false | .unparsed false _ | .notObject => cases h

end StreamChunk

/-! ## One frame -/

/-- What a frame does to the caches. -/
structure CachesFrame (q : RequestInfo) (c : StreamChunk) (q' : RequestInfo) : Prop where
  reqData : q'.reqData = q.reqData
  cached : q'.cachedTokenIds = q.cachedTokenIds ++ c.cachedIds
  prompt : q.promptTokenIds ≠ [] → q'.promptTokenIds = q.promptTokenIds
  reported : q.promptTokenIds = [] → q'.promptTokenIds ≠ [] →
    ∃ j, c = .json j ∧ j.reportedPrompt = some q'.promptTokenIds

theorem CachesFrame.unchanged (q : RequestInfo) {c : StreamChunk} (h : c.cachedIds = []) :
    CachesFrame q c q where
  reqData := rfl
  cached := by rw [h, List.append_nil]
  prompt := fun _ => rfl
  reported := fun h h' => absurd h h'

theorem RequestInfo.updateTokenIdCache_caches (q : RequestInfo) (j : ChunkJson) :
    CachesFrame q (.json j) (q.updateTokenIdCache j) where
  reqData := rfl
  cached := rfl
  prompt := fun h => by simp [updateTokenIdCache, h]
  reported := by
    intro h h'
    simp only [updateTokenIdCache, h, if_true] at h' ⊢
    cases hj : j.reportedPrompt with
    | none => simp [hj] at h'
    | some ids => exact ⟨j, rfl, by simp [hj]⟩

namespace Rescheduler

variable {r : Rescheduler} {q : RequestInfo} {roleSent : Bool}

theorem processStreamChunk_caches (henable : r.enable = true) (c : StreamChunk) :
    CachesFrame q c (r.processStreamChunk q roleSent c).info := by
  match c with
  | .json j =>
    simp only [processStreamChunk, processJson, henable, if_true]
    split
    · exact q.updateTokenIdCache_caches j
    · split <;> exact q.updateTokenIdCache_caches j
  | .notObject => exact .unchanged q rfl
  | .unparsed true _ | .unparsed false _ => exact .unchanged q rfl

theorem processStreamChunk_enable (c : StreamChunk) :
    (r.processStreamChunk q roleSent c).rescheduler.enable = r.enable := by
  match c with
  | .json j =>
    simp only [processStreamChunk, processJson]
    split
    · rfl
    · split <;> rfl
  | .notObject => rfl
  | .unparsed true _ | .unparsed false _ => rfl

/-- A frame that cannot be adapted is lost; one that is not understood has not been cached. -/
theorem adaptRaises_of_raised {j : ChunkJson} (hraised : (r.processJson q roleSent j).frame = none) :
    r.adaptRaises q j = true ∨ j.firstTokenIds = [] := by
  by_cases hfirst : (j.firstIsNotObject && r.enable) = true
  · right
    rw [Bool.and_eq_true] at hfirst
    have hhead : j.choices.head? = some none := by simpa [ChunkJson.firstIsNotObject] using hfirst.1
    simp [ChunkJson.firstTokenIds, ChunkJson.firstChoice, hhead]
  · left
    by_contra hadapt
    simp [processJson, hfirst, hadapt] at hraised

/-- Progress is complete as long as no output came without its tokens. -/
theorem progress_of_process (henable : r.enable = true) {c : StreamChunk}
    (hsent : (r.processStreamChunk q roleSent c).frame ≠ none)
    (hcomplete : (r.processStreamChunk q roleSent c).rescheduler.replayProgressComplete = true)
    (hfinished : (r.processStreamChunk q roleSent c).rescheduler.streamFinished = false) :
    r.replayProgressComplete = true ∧ r.streamFinished = false ∧ Piece.untracked ∉ c.output := by
  match c with
  | .json j =>
    have hr : (r.processStreamChunk q roleSent (.json j)).rescheduler = r.observe j := by
      simp only [processStreamChunk, processJson] at hsent ⊢
      split at hsent
      · exact absurd rfl hsent
      · next hfirst => rw [if_neg hfirst]; split <;> rfl
    rw [hr] at hcomplete hfinished
    simp only [observe, henable, Bool.true_and, Bool.and_eq_true, Bool.not_eq_true',
      Bool.or_eq_false_iff] at hcomplete hfinished
    refine ⟨hcomplete.1, hfinished.1, fun hmem => ?_⟩
    have hvisible : j.hasVisibleOutputWithoutTokenIds = true := untracked_mem_outputFrom hmem
    simp [hvisible] at hcomplete
  | .notObject => exact absurd rfl hsent
  | .unparsed true _ => simp [processStreamChunk] at hfinished
  | .unparsed false _ => exact ⟨hcomplete, hfinished, by simp [StreamChunk.output]⟩

theorem progress_of_process_raised {c : StreamChunk}
    (hcomplete : (r.processStreamChunk q roleSent c).rescheduler.replayProgressComplete = true)
    (hfinished : (r.processStreamChunk q roleSent c).rescheduler.streamFinished = false) :
    r.replayProgressComplete = true ∧ r.streamFinished = false := by
  match c with
  | .json j =>
    simp only [processStreamChunk, processJson] at hcomplete hfinished
    split at hcomplete
    · next h =>
      rw [if_pos h] at hfinished
      simp only [observe, Bool.and_eq_true] at hcomplete
      exact ⟨hcomplete.1, hfinished⟩
    · next h =>
      rw [if_neg h] at hfinished
      have hobserve : (r.observe j).replayProgressComplete = true ∧
          (r.observe j).streamFinished = false := by
        split at hcomplete
        · next h' => rw [if_pos h'] at hfinished; exact ⟨hcomplete, hfinished⟩
        · next h' => rw [if_neg h'] at hfinished; exact ⟨hcomplete, hfinished⟩
      simp only [observe, Bool.and_eq_true, Bool.or_eq_false_iff] at hobserve
      exact ⟨hobserve.1.1, hobserve.2.1⟩
  | .notObject => exact ⟨hcomplete, hfinished⟩
  | .unparsed true _ => simp [processStreamChunk] at hfinished
  | .unparsed false _ => exact ⟨hcomplete, hfinished⟩

end Rescheduler

theorem Strategy.exists_leg (strategy : Strategy) : ∃ leg, leg ∈ strategy.legs := by
  cases strategy
  · exact ⟨.engine, .head _⟩
  · exact ⟨.prefill, .head _⟩

/-! ## Plans -/

theorem RequestInfo.plan_spec {q : RequestInfo} {plan : RetryRequestPlan}
    (h : q.buildRetryPlan = .ok (some plan)) :
    plan.promptTokenIds = q.promptTokenIds ++ q.cachedTokenIds ∧
      plan.removeChatFields = q.reqData.messages.isSome ∧ q.promptTokenIds ≠ [] := by
  unfold buildRetryPlan at h
  split at h
  · cases h
  · next hids =>
    simp only [Bool.or_eq_true, List.isEmpty_iff, not_or] at hids
    grind

theorem RequestInfo.plan_exists {q : RequestInfo} {plan : Option RetryRequestPlan}
    (h : q.buildRetryPlan = .ok plan) (hprompt : q.promptTokenIds ≠ [])
    (hcached : q.cachedTokenIds ≠ []) : ∃ p, plan = some p := by
  unfold buildRetryPlan at h
  rw [if_neg (by simp [hprompt, hcached])] at h
  grind

namespace Rescheduler

variable {r : Rescheduler} {q : RequestInfo}

theorem plan_of_canResume (h : r.canResumeAfterVisibleOutput q = true) :
    ∃ plan, q.buildRetryPlan = .ok (some plan) := by
  simp only [canResumeAfterVisibleOutput, Bool.and_eq_true, Bool.not_eq_true', List.isEmpty_eq_false_iff]
    at h
  obtain ⟨⟨⟨⟨-, hprompt⟩, hcached⟩, hone⟩, hchat⟩ := h
  have hvalid : q.reqData.n ≠ .invalid := by
    intro hn
    simp [ReqData.asksForOne, hn] at hone
  have hadmitted : ¬ (q.reqData.messages.isSome && !q.reqData.completionsRetryEligible) = true := by
    cases hm : q.reqData.messages <;> simp_all
  unfold RequestInfo.buildRetryPlan
  rw [if_neg (by simp [hprompt, hcached]), if_neg hvalid, if_neg (by simp [hone]), if_neg hadmitted]
  exact ⟨_, rfl⟩

theorem progress_of_canResume (h : r.canResumeAfterVisibleOutput q = true) :
    r.replayProgressComplete = true ∧ r.streamFinished = false ∧ q.promptTokenIds ≠ [] := by
  simp only [canResumeAfterVisibleOutput, Bool.and_eq_true, Bool.not_eq_true', List.isEmpty_eq_false_iff]
    at h
  exact ⟨h.1.1.1.1.1.2, h.1.1.1.1.2, h.1.1.1.2⟩

end Rescheduler

/-! ## The condition -/

/-- A request that follows output asks to continue the one prompt after all of that output. -/
def Forward.Replays (prompts : List (List ℕ)) (f : Forward) : Prop :=
  f.sent ≠ [] → ∃ prompt ids, prompts = [prompt] ∧ tokensOf f.sent = some ids ∧
    f.request.prompt = some (.tokens (prompt ++ ids)) ∧ f.request.messages = none

namespace StreamState

/-- The attempt that comes next replays. -/
def PlanReady (prompts : List (List ℕ)) (s : StreamState) : Prop :=
  s.sent ≠ [] → ∃ prompt ids plan, prompts = [prompt] ∧ tokensOf s.sent = some ids ∧
    s.plan = some plan ∧ plan.promptTokenIds = prompt ++ ids ∧
    plan.removeChatFields = s.info.reqData.messages.isSome

/-- The request has one prompt and one choice, and no tokens were cached that the client did not get;
the hybrid router needs that the prompt and all of the output were reported, too. -/
def CanReplay (cfg : StreamConfig) (prompts : List (List ℕ)) (s : StreamState) : Prop :=
  prompts.length = 1 ∧ (∀ p ∈ s.sent, p.isFirst = true) ∧ s.lost = false ∧
    (cfg.strategy = .pdHybrid → s.info.promptTokenIds ≠ [] ∧ Piece.untracked ∉ s.sent)

instance (cfg : StreamConfig) (prompts : List (List ℕ)) (s : StreamState) :
    Decidable (s.CanReplay cfg prompts) := by
  unfold CanReplay
  infer_instance

/-- The router goes on after output, and replay is not refused. -/
def goesOn (cfg : StreamConfig) (s : StreamState) (e : Failure) (feasible : Bool) : Bool :=
  !s.sent.isEmpty && (s.shouldResume cfg feasible || s.retries cfg e) && s.info.buildRetryPlan.isOk

/-- When the router goes on after output, what was sent can be replayed. -/
def Guard (cfg : StreamConfig) (prompts : List (List ℕ)) (s : StreamState) : RetryOp → Prop
  | .fail e feasible =>
    s.phase matches .running _ _ → s.goesOn cfg e feasible = true → s.CanReplay cfg prompts
  | .chunk c feasible =>
    s.phase matches .running _ _ → (s.process cfg c).frame = none →
      (s.received cfg c).goesOn cfg .other feasible = true → (s.received cfg c).CanReplay cfg prompts
  | _ => True

instance (cfg : StreamConfig) (prompts : List (List ℕ)) (s : StreamState) (op : RetryOp) :
    Decidable (s.Guard cfg prompts op) := by
  cases op <;> unfold Guard <;> infer_instance

/-! ## The invariant -/

variable {cfg : StreamConfig} {prompts : List (List ℕ)} {s : StreamState}

/-- What holds in every phase. -/
structure Base (prompts : List (List ℕ)) (s : StreamState) : Prop where
  enabled : s.rescheduler.enable = true
  prompt : s.info.promptTokenIds ≠ [] → s.info.promptTokenIds ∈ prompts
  planned : s.plan ≠ none → s.info.promptTokenIds ≠ []
  pieces : ∀ k ids, .tokens k ids ∈ s.sent → ids ≠ []
  cached : s.lost = false → s.info.cachedTokenIds = firstIds s.sent
  progress : s.hybridStreamFallbackAttempted = false → s.rescheduler.replayProgressComplete = true →
    s.rescheduler.streamFinished = false → Piece.untracked ∉ s.sent
  body : s.sent ≠ [] → s.bodySent = true
  forwards : ∀ f ∈ s.forwards, f.Replays prompts

/-- What was sent is in the cache, after a prompt that is known. -/
def Replayable (prompts : List (List ℕ)) (s : StreamState) : Prop :=
  ∃ prompt ids, prompts = [prompt] ∧ tokensOf s.sent = some ids ∧ ids ≠ [] ∧
    s.info.promptTokenIds = prompt ∧ prompt ≠ [] ∧ s.info.cachedTokenIds = ids

/-- What holds in addition, depending on the phase. -/
def PhaseInv (cfg : StreamConfig) (prompts : List (List ℕ)) (s : StreamState) : Prop :=
  match s.phase with
  | .starting => s.sent ≠ [] → s.attempt ≠ 0 ∧ (s.info.buildRetryPlan.isOk = true → s.Replayable prompts)
  | .running _ posted => (∃ leg ∈ cfg.strategy.legs, leg ∉ posted) → s.PlanReady prompts
  | .fallback false => s.PlanReady prompts
  | .fallback true | .ended _ => True

structure Inv (cfg : StreamConfig) (prompts : List (List ℕ)) (s : StreamState) : Prop where
  base : s.Base prompts
  phase : s.PhaseInv cfg prompts
  /-- After the hybrid instance has taken over there is no way back. -/
  attempting : s.hybridStreamFallbackAttempted = true →
    s.phase ≠ .starting ∧ ∀ b posted, s.phase ≠ .running b posted

theorem Inv.attempted_of_starting (h : s.Inv cfg prompts) (hs : s.phase = .starting) :
    s.hybridStreamFallbackAttempted = false := by
  by_contra hne
  exact (h.attempting (by simpa using hne)).1 hs

theorem Inv.attempted_of_running (h : s.Inv cfg prompts) {b : Bool} {posted : List Leg}
    (hs : s.phase = .running b posted) : s.hybridStreamFallbackAttempted = false := by
  by_contra hne
  exact (h.attempting (by simpa using hne)).2 b posted hs

theorem Base.replayable (h : s.Base prompts) (hone : prompts.length = 1)
    (hfirst : ∀ p ∈ s.sent, p.isFirst = true) (hlost : s.lost = false)
    (hprompt : s.info.promptTokenIds ≠ []) (hknown : Piece.untracked ∉ s.sent)
    (hsent : s.sent ≠ []) : s.Replayable prompts := by
  obtain ⟨prompt, rfl⟩ := List.length_eq_one_iff.mp hone
  have htokens := tokensOf_eq_firstIds hfirst hknown
  refine ⟨prompt, firstIds s.sent, rfl, htokens, ?_, ?_, ?_, h.cached hlost⟩
  · -- the first piece has tokens
    obtain ⟨p, ps, hps⟩ := List.exists_cons_of_ne_nil hsent
    have hmem : p ∈ s.sent := hps ▸ .head _
    match p with
    | .untracked => exact absurd hmem hknown
    | .tokens (k + 1) ids => simpa [Piece.isFirst] using hfirst _ hmem
    | .tokens 0 ids =>
      have := h.pieces 0 ids hmem
      simp [hps, firstIds, this]
  · exact List.mem_singleton.mp (h.prompt hprompt)
  · rwa [← List.mem_singleton.mp (h.prompt hprompt)]

theorem Replayable.planReady {plan : Option RetryRequestPlan} (h : s.Replayable prompts)
    (hplan : s.info.buildRetryPlan = .ok plan) (hs : s.plan = plan) : s.PlanReady prompts := by
  intro _
  obtain ⟨prompt, ids, rfl, htokens, hids, hprompt, hne, hcached⟩ := h
  obtain ⟨p, rfl⟩ := RequestInfo.plan_exists hplan (by rwa [hprompt]) (by rwa [hcached])
  obtain ⟨hp, hchat, -⟩ := RequestInfo.plan_spec hplan
  exact ⟨prompt, ids, p, rfl, htokens, hs, by rw [hp, hprompt, hcached], hchat⟩

theorem PlanReady.replays (h : s.PlanReady prompts) (henabled : cfg.rescheduleEnabled = true)
    (leg : Leg) (api : String) :
    Forward.Replays prompts
      ⟨leg, (s.attemptRequest cfg leg api).1, (s.attemptRequest cfg leg api).2, s.sent⟩ := by
  intro hsent
  obtain ⟨prompt, ids, plan, hprompts, htokens, hplan, hp, hchat⟩ := h hsent
  refine ⟨prompt, ids, hprompts, htokens, ?_, ?_⟩
  · simp [attemptRequest, henabled, hplan, RetryRequestPlan.apply, hp]
  · simp only [attemptRequest, henabled, if_true, hplan, RetryRequestPlan.apply, hchat]
    cases hm : s.info.reqData.messages <;> simp [RetryRequestPlan.removeChat]

/-! ## Decisions -/

theorem retries_http (s : StreamState) : s.retries cfg .http = false := by
  unfold retries
  cases cfg.strategy <;> simp [pdHybridRetries, unifiedPdRetries, transportRetryable, Failure.isTimeout]

/-- The router for separate prefill and decode goes on after output only if its gate admits it. -/
theorem canResume_of_goesOn {e : Failure} {feasible : Bool} (h : s.Base prompts)
    (hunified : cfg.strategy = .unifiedPd) (hgo : s.goesOn cfg e feasible = true) :
    s.rescheduler.canResumeAfterVisibleOutput s.info = true := by
  simp only [goesOn, Bool.and_eq_true, Bool.not_eq_true', List.isEmpty_eq_false_iff,
    Bool.or_eq_true] at hgo
  obtain ⟨⟨hsent, hgo⟩, -⟩ := hgo
  have hbody := h.body hsent
  rcases hgo with hresume | hretry
  · simp only [shouldResume, Bool.and_eq_true] at hresume
    exact hresume.1.2
  · have hallowed : s.streamRetryAllowed = true := by
      unfold retries at hretry
      rw [hunified] at hretry
      cases e <;> simp_all [unifiedPdRetries]
    simpa [streamRetryAllowed, hbody] using hallowed

theorem Base.replayable_of_goesOn {e : Failure} {feasible : Bool} (h : s.Base prompts)
    (hattempting : s.hybridStreamFallbackAttempted = false)
    (hgo : s.goesOn cfg e feasible = true) (hcan : s.CanReplay cfg prompts) :
    s.Replayable prompts := by
  obtain ⟨hone, hfirst, hlost, hhybrid⟩ := hcan
  have hsent : s.sent ≠ [] := by
    simp only [goesOn, Bool.and_eq_true, Bool.not_eq_true', List.isEmpty_eq_false_iff] at hgo
    exact hgo.1.1
  cases hstrategy : cfg.strategy with
  | pdHybrid =>
    obtain ⟨hprompt, hknown⟩ := hhybrid hstrategy
    exact h.replayable hone hfirst hlost hprompt hknown hsent
  | unifiedPd =>
    have hresume := canResume_of_goesOn h hstrategy hgo
    obtain ⟨hcomplete, hfinished, hprompt⟩ := Rescheduler.progress_of_canResume hresume
    exact h.replayable hone hfirst hlost hprompt (h.progress hattempting hcomplete hfinished) hsent

/-! ## Steps -/

theorem Base.enterFallback (h : s.Base prompts) (henabled : cfg.rescheduleEnabled = true)
    {plan : Option RetryRequestPlan} (hplan : plan ≠ none → s.info.promptTokenIds ≠ []) :
    (s.enterFallback cfg plan).Base prompts where
  enabled := henabled
  prompt := h.prompt
  planned := hplan
  pieces := h.pieces
  cached := h.cached
  progress := by intro hfalse; cases hfalse
  body := h.body
  forwards := h.forwards

theorem enterFallback_phase (s : StreamState) (cfg : StreamConfig) (plan : Option RetryRequestPlan) :
    (s.enterFallback cfg plan).phase ≠ .starting ∧
      ∀ b posted, (s.enterFallback cfg plan).phase ≠ .running b posted := by
  simp [enterFallback]

/-- A step that leaves the request as it is, apart from the phase and the attempt. -/
theorem Base.phase (h : s.Base prompts) (phase : Phase) (attempt : ℕ) :
    Base prompts { s with phase := phase, attempt := attempt } where
  enabled := h.enabled
  prompt := h.prompt
  planned := h.planned
  pieces := h.pieces
  cached := h.cached
  progress := h.progress
  body := h.body
  forwards := h.forwards

theorem Inv.ended (h : s.Base prompts) (how : StreamEnd) : (s.end how).Inv cfg prompts where
  base := h.phase _ _
  phase := trivial
  attempting := fun _ => ⟨by simp [StreamState.end], by simp [StreamState.end]⟩

theorem Inv.onFailure (h : s.Base prompts) (henabled : cfg.rescheduleEnabled = true)
    (hattempting : s.hybridStreamFallbackAttempted = false) (e : Failure) (feasible : Bool)
    (hguard : s.goesOn cfg e feasible = true → s.CanReplay cfg prompts) :
    (s.onFailure cfg e feasible).Inv cfg prompts := by
  have hreplayable : s.sent ≠ [] → s.shouldResume cfg feasible = true ∨ s.retries cfg e = true →
      s.info.buildRetryPlan.isOk = true → s.Replayable prompts := by
    intro hsent hgo hok
    have hgo : s.goesOn cfg e feasible = true := by
      simp only [goesOn, Bool.and_eq_true, Bool.not_eq_true', List.isEmpty_eq_false_iff,
        Bool.or_eq_true]
      exact ⟨⟨hsent, hgo⟩, hok⟩
    exact h.replayable_of_goesOn hattempting hgo (hguard hgo)
  unfold StreamState.onFailure
  split
  · -- nothing was sent if the request is restarted
    next hrestart =>
    refine ⟨h.enterFallback henabled (by simp), fun hsent => ?_, fun _ => s.enterFallback_phase cfg _⟩
    simp [shouldRestart, h.body hsent] at hrestart
  · split
    · next hresume =>
      split
      · next plan hplan =>
        have hprompt := (RequestInfo.plan_spec hplan).2.2
        refine ⟨h.enterFallback henabled (fun _ => hprompt), fun hsent => ?_,
          fun _ => s.enterFallback_phase cfg _⟩
        have hr := hreplayable hsent (.inl hresume) (by rw [hplan]; rfl)
        exact (Replayable.planReady (s := s.enterFallback cfg (some plan)) hr hplan rfl) hsent
      · exact .ended h _
    · split
      · next hretry =>
        refine ⟨h.phase _ _, fun hsent => ⟨by simp, fun hok => ?_⟩, ?_⟩
        · exact hreplayable hsent (.inr hretry) hok
        · simp [hattempting]
      · exact .ended h _

theorem Base.prepareAttempt (h : s.Base prompts) : (s.prepareAttempt cfg).Base prompts := by
  unfold StreamState.prepareAttempt
  cases cfg.strategy
  all_goals exact
    { enabled := h.enabled, prompt := h.prompt, planned := fun hplan => absurd rfl hplan
      pieces := h.pieces, cached := h.cached, progress := h.progress, body := h.body
      forwards := h.forwards }

@[simp] theorem prepareAttempt_info (s : StreamState) : (s.prepareAttempt cfg).info = s.info := by
  unfold prepareAttempt
  cases cfg.strategy <;> rfl

@[simp] theorem prepareAttempt_sent (s : StreamState) : (s.prepareAttempt cfg).sent = s.sent := by
  unfold prepareAttempt
  cases cfg.strategy <;> rfl

@[simp] theorem prepareAttempt_attempted (s : StreamState) :
    (s.prepareAttempt cfg).hybridStreamFallbackAttempted = s.hybridStreamFallbackAttempted := by
  unfold prepareAttempt
  cases cfg.strategy <;> rfl

theorem Inv.attemptPlan (h : s.Inv cfg prompts) (hstarting : s.phase = .starting)
    (henabled : cfg.rescheduleEnabled = true) {plan : Option RetryRequestPlan}
    (hplan : s.attemptPlan cfg = .ok plan) (hs : s.sent ≠ []) :
    s.info.buildRetryPlan = .ok plan ∧ s.Replayable prompts := by
  have hphase := h.phase
  simp only [PhaseInv, hstarting] at hphase
  obtain ⟨hattempt, hready⟩ := hphase hs
  unfold StreamState.attemptPlan at hplan
  rw [if_neg (by simp [hattempt, henabled])] at hplan
  exact ⟨hplan, hready (by rw [hplan]; rfl)⟩

theorem attemptPlan_error {error : HTTPException} (h : s.attemptPlan cfg = .error error) :
    s.info.buildRetryPlan = .error error := by
  unfold attemptPlan at h
  split at h
  · cases h
  · exact h

theorem Inv.start (h : s.Inv cfg prompts) (hstarting : s.phase = .starting)
    (henabled : cfg.rescheduleEnabled = true) (feasible : Bool) :
    (s.startAttempt cfg feasible).Inv cfg prompts := by
  have hattempting := h.attempted_of_starting hstarting
  have hbase : (s.prepareAttempt cfg).Base prompts := h.base.prepareAttempt
  unfold startAttempt
  split
  · next plan hplan =>
    refine ⟨?_, fun _ hsent => ?_, by simp [hattempting]⟩
    · refine { hbase with planned := fun hne => ?_ }
      obtain ⟨p, rfl⟩ := Option.ne_none_iff_exists'.mp hne
      unfold StreamState.attemptPlan at hplan
      split at hplan
      · cases hplan
      · simpa using (RequestInfo.plan_spec hplan).2.2
    · rw [prepareAttempt_sent] at hsent
      obtain ⟨hplan, hready⟩ := h.attemptPlan hstarting henabled hplan hsent
      have hready : Replayable prompts
          { s.prepareAttempt cfg with plan := plan, phase := .running false [] } := by
        simpa [Replayable] using hready
      exact hready.planReady (by simpa using hplan) rfl (by simpa using hsent)
  · next error herror =>
    refine .onFailure hbase henabled (by simpa using hattempting) _ _ fun hgo => ?_
    simp [goesOn, attemptPlan_error herror] at hgo
    exact absurd hgo.2 (by simp [Except.isOk, Except.toBool])

theorem Base.setController (h : s.Base prompts) (controller : StreamCommitController) (n : ℕ)
    (phase : Phase) : Base prompts { s with controller, attemptSeq := n, phase } where
  enabled := h.enabled
  prompt := h.prompt
  planned := h.planned
  pieces := h.pieces
  cached := h.cached
  progress := h.progress
  body := h.body
  forwards := h.forwards

theorem Inv.scheduled (h : s.Inv cfg prompts) (hphase : s.phase = .running false []) :
    (s.scheduled cfg).Inv cfg prompts := by
  have hready : (∃ leg ∈ cfg.strategy.legs, leg ∉ []) → s.PlanReady prompts := by
    simpa only [PhaseInv, hphase] using h.phase
  have hattempting := h.attempted_of_running hphase
  unfold StreamState.scheduled
  split
  · exact ⟨h.base.phase _ s.attempt, hready, by simp [hattempting]⟩
  · exact ⟨h.base.setController _ _ _, hready, by simp [hattempting]⟩

theorem Base.forward (h : s.Base prompts) (henabled : cfg.rescheduleEnabled = true)
    (hready : s.PlanReady prompts) (leg : Leg) (api : String) (phase : Phase) :
    Base prompts { s.forward cfg leg api with phase } where
  enabled := h.enabled
  prompt := h.prompt
  planned := h.planned
  pieces := h.pieces
  cached := h.cached
  progress := h.progress
  body := h.body
  forwards := by
    intro f hf
    rcases List.mem_append.mp hf with hf | hf
    · exact h.forwards f hf
    · rw [List.mem_singleton.mp hf]
      exact hready.replays henabled leg api

theorem Inv.postLeg (h : s.Inv cfg prompts) (henabled : cfg.rescheduleEnabled = true) {leg : Leg}
    {s' : StreamState} (hs : s.postLeg cfg leg = some s') : s'.Inv cfg prompts := by
  have hphase := h.phase
  unfold StreamState.postLeg at hs
  split at hs
  · next posted hrunning =>
    simp only [PhaseInv, hrunning] at hphase
    split at hs
    · next hleg =>
      cases hs
      have hready := hphase ⟨leg, hleg⟩
      have hattempting := h.attempted_of_running hrunning
      refine ⟨h.base.forward henabled hready leg _ _, fun _ => hready, ?_⟩
      simp [StreamState.forward, hattempting]
    · cases hs
  · next hfallback =>
    simp only [PhaseInv, hfallback] at hphase
    split at hs
    · cases hs
      exact ⟨h.base.forward henabled hphase _ _ _, trivial, by simp⟩
    · cases hs
  · cases hs

theorem Inv.setController (h : s.Inv cfg prompts) (controller : StreamCommitController) :
    Inv cfg prompts { s with controller } where
  base := h.base.setController _ s.attemptSeq s.phase
  phase := h.phase
  attempting := h.attempting

theorem Inv.legAccepted (h : s.Inv cfg prompts) {leg : Leg} {s' : StreamState}
    (hs : s.legAccepted leg = some s') : s'.Inv cfg prompts := by
  unfold StreamState.legAccepted at hs
  split at hs
  all_goals first
    | cases hs
    | (split at hs
       · cases hs
         exact h.setController _
       · cases hs)

/-! ### A frame -/

theorem process_eq (henabled : cfg.rescheduleEnabled = true) (s : StreamState) (c : StreamChunk) :
    s.process cfg c = s.rescheduler.processStreamChunk s.info s.roleSent c := by
  simp [process, henabled]

theorem Base.processed (h : s.Base prompts) (henabled : cfg.rescheduleEnabled = true) (c : StreamChunk) :
    CachesFrame s.info c (s.process cfg c).info ∧ (s.process cfg c).rescheduler.enable = true ∧
      (s.plan ≠ none → (s.process cfg c).info.promptTokenIds ≠ []) := by
  rw [process_eq henabled]
  have hcaches : CachesFrame s.info c (s.rescheduler.processStreamChunk s.info s.roleSent c).info :=
    Rescheduler.processStreamChunk_caches h.enabled c
  refine ⟨hcaches, (Rescheduler.processStreamChunk_enable c).trans h.enabled, fun hplan => ?_⟩
  rw [hcaches.prompt (h.planned hplan)]
  exact h.planned hplan

theorem Base.prompt_of_received (h : s.Base prompts) (henabled : cfg.rescheduleEnabled = true)
    {c : StreamChunk} (hreports : s.reportsPrompt prompts c = true)
    (hne : (s.process cfg c).info.promptTokenIds ≠ []) :
    (s.process cfg c).info.promptTokenIds ∈ prompts := by
  obtain ⟨hcaches, -, -⟩ := h.processed henabled c
  by_cases hprompt : s.info.promptTokenIds = []
  · obtain ⟨j, rfl, hj⟩ := hcaches.reported hprompt hne
    have hplan : s.plan = none := by
      by_contra hplan
      exact h.planned hplan hprompt
    simpa [reportsPrompt, hj, hplan] using hreports
  · rw [hcaches.prompt hprompt]
    exact h.prompt hprompt

/-- A frame that raises leaves the cache and what was sent in step, or counts as lost. -/
theorem Base.received (h : s.Base prompts) (henabled : cfg.rescheduleEnabled = true)
    {c : StreamChunk} (hreports : s.reportsPrompt prompts c = true)
    (hraised : (s.process cfg c).frame = none) : (s.received cfg c).Base prompts := by
  obtain ⟨hcaches, henable, hplanned⟩ := h.processed henabled c
  refine
    { enabled := henable, prompt := h.prompt_of_received henabled hreports, planned := hplanned
      pieces := h.pieces, cached := fun hlost => ?_, progress := fun hfallback hcomplete hfinished => ?_
      body := h.body, forwards := h.forwards }
  · show (s.process cfg c).info.cachedTokenIds = firstIds s.sent
    have hlost : s.lost = false ∧ s.loses cfg c = false := by
      simpa [StreamState.received] using hlost
    have hnone : c.cachedIds = [] := by
      match c with
      | .json j =>
        rw [process_eq henabled] at hraised
        rcases Rescheduler.adaptRaises_of_raised hraised with hadapt | hids
        · show j.firstTokenIds = []
          simpa [loses, henabled, hadapt] using hlost.2
        · exact hids
      | .notObject | .unparsed _ _ => rfl
    rw [hcaches.cached, hnone, List.append_nil, h.cached hlost.1]
  · have hcomplete : (s.process cfg c).rescheduler.replayProgressComplete = true := hcomplete
    have hfinished : (s.process cfg c).rescheduler.streamFinished = false := hfinished
    rw [process_eq henabled] at hcomplete hfinished
    obtain ⟨hcomplete, hfinished⟩ := Rescheduler.progress_of_process_raised hcomplete hfinished
    exact h.progress hfallback hcomplete hfinished

theorem Base.delivered (h : s.Base prompts) (henabled : cfg.rescheduleEnabled = true)
    {c : StreamChunk} (hreports : s.reportsPrompt prompts c = true)
    (hsent : (s.process cfg c).frame ≠ none) :
    Base prompts { s.received cfg c with sent := s.sent ++ c.output, bodySent := true } := by
  obtain ⟨hcaches, henable, hplanned⟩ := h.processed henabled c
  refine
    { enabled := henable, prompt := h.prompt_of_received henabled hreports, planned := hplanned
      pieces := fun k ids hmem => ?_, cached := fun hlost => ?_
      progress := fun hfallback hcomplete hfinished => ?_
      body := fun _ => rfl, forwards := h.forwards }
  · rcases List.mem_append.mp hmem with hmem | hmem
    · exact h.pieces k ids hmem
    · exact StreamChunk.tokens_mem_output hmem
  · show (s.process cfg c).info.cachedTokenIds = firstIds (s.sent ++ c.output)
    have hlost : s.lost = false ∧ s.loses cfg c = false := by
      simpa [StreamState.received] using hlost
    rw [hcaches.cached, h.cached hlost.1, firstIds_append, StreamChunk.firstIds_output]
  · have hcomplete : (s.process cfg c).rescheduler.replayProgressComplete = true := hcomplete
    have hfinished : (s.process cfg c).rescheduler.streamFinished = false := hfinished
    rw [process_eq henabled] at hsent hcomplete hfinished
    obtain ⟨hcomplete, hfinished, houtput⟩ :=
      Rescheduler.progress_of_process h.enabled hsent hcomplete hfinished
    intro hmem
    rcases List.mem_append.mp hmem with hmem | hmem
    · exact h.progress hfallback hcomplete hfinished hmem
    · exact houtput hmem

theorem phaseInv_of_isStreaming (h : s.isStreaming cfg = true) : s.PhaseInv cfg prompts := by
  unfold PhaseInv
  unfold isStreaming at h
  split
  · next hphase => simp [hphase] at h
  · next posted hphase =>
    rintro ⟨leg, hleg, hposted⟩
    simp only [hphase, List.all_eq_true, decide_eq_true_eq] at h
    exact absurd (h leg hleg) hposted
  · next hphase => simp [hphase] at h
  · trivial
  · trivial

theorem Inv.deliver (h : s.Inv cfg prompts) (henabled : cfg.rescheduleEnabled = true)
    {c : StreamChunk} {feasible : Bool} (hstreaming : s.isStreaming cfg = true)
    (hreports : s.reportsPrompt prompts c = true)
    (hguard : s.Guard cfg prompts (.chunk c feasible)) :
    (s.deliver cfg c feasible).Inv cfg prompts := by
  unfold StreamState.deliver
  split
  · next frame hframe =>
    refine ⟨h.base.delivered henabled hreports (by simp [hframe]), ?_, h.attempting⟩
    exact phaseInv_of_isStreaming
      (s := { s.received cfg c with sent := s.sent ++ c.output, bodySent := true }) hstreaming
  · next hraised =>
    have hbase := h.base.received henabled hreports hraised
    split
    · exact .ended hbase _
    · next hphase =>
      have ⟨b, posted, hrunning⟩ : ∃ b posted, s.phase = .running b posted := by
        unfold isStreaming at hstreaming
        cases hs : s.phase <;> simp_all
      have hattempting := h.attempted_of_running hrunning
      refine .onFailure hbase henabled hattempting _ _ fun hgo => hguard ?_ hraised hgo
      simp [hrunning]

/-! ## Runs -/

theorem Inv.new (cfg : StreamConfig) (prompts : List (List ℕ)) (info : RequestInfo)
    (controller : StreamCommitController) (henabled : cfg.rescheduleEnabled = true) :
    (StreamState.new cfg info controller).Inv cfg prompts where
  base :=
    { enabled := henabled
      prompt := fun h => absurd rfl h
      planned := fun h => absurd rfl h
      pieces := by intro k ids h; cases h
      cached := fun _ => rfl
      progress := by intro _ _ _ h; cases h
      body := fun h => absurd rfl h
      forwards := by intro f h; cases h }
  phase := fun h => absurd rfl h
  attempting := by intro h; cases h

theorem Inv.step {op : RetryOp} {s' : StreamState} (h : s.Inv cfg prompts)
    (henabled : cfg.rescheduleEnabled = true) (hguard : s.Guard cfg prompts op)
    (hs : s.exec cfg prompts op = some s') : s'.Inv cfg prompts := by
  cases op with
  | start feasible =>
    obtain ⟨hphase, hs⟩ := Option.ite_none_right_eq_some.mp hs
    cases hs
    exact h.start hphase henabled feasible
  | schedule =>
    obtain ⟨hphase, hs⟩ := Option.ite_none_right_eq_some.mp hs
    cases hs
    exact h.scheduled hphase
  | post leg => exact h.postLeg henabled hs
  | accepted leg => exact h.legAccepted hs
  | commit =>
    obtain ⟨-, hs⟩ := Option.ite_none_right_eq_some.mp hs
    cases hs
    exact h.setController _
  | chunk c feasible =>
    obtain ⟨⟨hstreaming, -, hreports⟩, hs⟩ := Option.ite_none_right_eq_some.mp hs
    cases hs
    exact h.deliver henabled hstreaming hreports hguard
  | finish =>
    obtain ⟨-, hs⟩ := Option.ite_none_right_eq_some.mp hs
    cases hs
    exact .ended h.base _
  | fail e feasible =>
    simp only [exec] at hs
    split at hs
    · next hphase =>
      cases hs
      refine .onFailure h.base henabled (h.attempted_of_running hphase) _ _ (hguard ?_)
      simp [hphase]
    · cases hs
      exact .ended h.base _
    · cases hs
  | abandon =>
    simp only [exec] at hs
    split at hs
    · cases hs
    · cases hs
      exact .ended h.base _

/-- An attempt after output that has no plan is the end of the request. -/
theorem startAttempt_fails (h : s.Base prompts) (hsent : s.sent ≠ []) {error : HTTPException}
    (herror : s.attemptPlan cfg = .error error) (feasible : Bool) :
    (s.startAttempt cfg feasible).phase = .ended .failed := by
  have hbase : (s.prepareAttempt cfg).Base prompts := h.prepareAttempt
  have hbody : (s.prepareAttempt cfg).bodySent = true := hbase.body (by simpa using hsent)
  have hrestart : (s.prepareAttempt cfg).shouldRestart cfg feasible = false := by
    simp [shouldRestart, hbody]
  have hresume : (s.prepareAttempt cfg).shouldResume cfg feasible = false := by
    by_contra hresume
    simp only [shouldResume, Bool.not_eq_false, Bool.and_eq_true] at hresume
    obtain ⟨plan, hplan⟩ := Rescheduler.plan_of_canResume hresume.1.2
    rw [prepareAttempt_info, attemptPlan_error herror] at hplan
    cases hplan
  simp [startAttempt, herror, StreamState.onFailure, hrestart, hresume, retries_http, StreamState.end]

/-- **Retries neither repeat nor skip output**, as long as the routers go on only with what can be
replayed. Every request that is forwarded after some output continues the prompt after exactly that
output, and when an attempt cannot be started so, the request fails. -/
theorem retries_replay {info : RequestInfo} {controller : StreamCommitController}
    {ops : List RetryOp} (henabled : cfg.rescheduleEnabled = true)
    (h : Run (exec cfg prompts) (Guard cfg prompts) (StreamState.new cfg info controller) ops s) :
    (∀ f ∈ s.forwards, f.Replays prompts) ∧
      ∀ feasible, s.phase = .starting → s.sent ≠ [] →
        (s.startAttempt cfg feasible).phase = .ended .failed ∨
          (s.startAttempt cfg feasible).phase = .running false [] ∧
            (s.startAttempt cfg feasible).PlanReady prompts := by
  have hinv : s.Inv cfg prompts :=
    h.invariant_state (.new cfg prompts info controller henabled)
      fun hi hguard hs => hi.step henabled hguard hs
  refine ⟨hinv.base.forwards, fun feasible hstarting hsent => ?_⟩
  cases hplan : s.attemptPlan cfg with
  | error error => exact .inl (startAttempt_fails hinv.base hsent hplan feasible)
  | ok plan =>
    right
    have hstarted := hinv.start hstarting henabled feasible
    have hphase : (s.startAttempt cfg feasible).phase = .running false [] := by
      simp [startAttempt, hplan]
    refine ⟨hphase, ?_⟩
    have hready := hstarted.phase
    simp only [PhaseInv, hphase] at hready
    obtain ⟨leg, hleg⟩ := cfg.strategy.exists_leg
    exact hready ⟨leg, hleg, List.not_mem_nil⟩

/-! ### A replay, and a repetition -/

def completion : RequestInfo where
  reqData :=
    { prompt := some (.text "Hello"), messages := none, n := .absent, maxTokens := .int 50
      maxCompletionTokens := .absent, responseFormat := none, tools := false, logprobs := false
      topLogprobs := false, otherChatFields := [], returnTokenIds := false }
  api := "v1/completions"
  entryApi := "v1/completions"
  clientExpectsTokenIds := false
  clientExpectsChatShape := false
  promptTokenIds := []
  cachedTokenIds := []

/-- A frame with the text `A`, with or without its token. -/
def frame (reported : Bool) : StreamChunk :=
  .json
    { object := some "text_completion"
      promptTokenIds := if reported then some [1, 2] else none
      choices := [some
        { index := 0, text := some (.text "A"), delta := none, message := none
          tokenIds := if reported then some [10] else none, promptTokenIds := none
          finishReason := none, stopReason := none, logprobsConvert := true }] }

def controllerOf (strategy : Strategy) : StreamCommitController where
  requiredParts := (strategy.legs.map Leg.part).foldl OrdSet.insert ∅
  attemptId := 0
  readyParts := ∅
  readyEvent := false
  committedEvent := false
  commitStarted := false
  committed := false

/-- One frame, a failure, and the second attempt. -/
def frameThenRetry (strategy : Strategy) (reported : Bool) : List RetryOp :=
  [.start false, .schedule] ++ strategy.legs.map .post ++ strategy.legs.map .accepted ++
    [.commit, .chunk (frame reported) false, .fail (.request .readError) false, .start false, .schedule] ++
    strategy.legs.map .post

def retryTwice (strategy : Strategy) : StreamConfig := ⟨strategy, 3, true, false⟩

theorem reportedFrame_replays :
    ∃ s, Run (exec (retryTwice .unifiedPd) [[1, 2]]) (Guard (retryTwice .unifiedPd) [[1, 2]])
        (StreamState.new (retryTwice .unifiedPd) completion (controllerOf .unifiedPd))
        (frameThenRetry .unifiedPd true) s ∧
      s.forwards.map (fun f => (f.request.prompt, f.sent)) =
        [(some (.text "Hello"), []), (some (.text "Hello"), []),
          (some (.tokens [1, 2, 10]), [.tokens 0 [10]]), (some (.tokens [1, 2, 10]), [.tokens 0 [10]])] ∧
      ∀ f ∈ s.forwards, f.Replays [[1, 2]] := by
  have h : (runList (exec (retryTwice .unifiedPd) [[1, 2]]) (Guard (retryTwice .unifiedPd) [[1, 2]])
      (StreamState.new (retryTwice .unifiedPd) completion (controllerOf .unifiedPd))
      (frameThenRetry .unifiedPd true)).map
        (fun s => s.forwards.map fun f => (f.request.prompt, f.sent)) =
      some [(some (.text "Hello"), []), (some (.text "Hello"), []),
        (some (.tokens [1, 2, 10]), [.tokens 0 [10]]),
        (some (.tokens [1, 2, 10]), [.tokens 0 [10]])] := by decide
  obtain ⟨s, hs, hf⟩ := Option.map_eq_some_iff.mp h
  exact ⟨s, runList_run hs, hf, (retries_replay rfl (runList_run hs)).1⟩

/-- The hybrid router forwards the request from the start although its output is already there. -/
theorem unreportedFrame_repeats :
    ∃ s, Run (exec (retryTwice .pdHybrid) [[1, 2]]) Free
        (StreamState.new (retryTwice .pdHybrid) completion (controllerOf .pdHybrid))
        (frameThenRetry .pdHybrid false) s ∧
      ∃ f ∈ s.forwards, f.sent = [.untracked] ∧ f.request.prompt = some (.text "Hello") ∧
        ¬ f.Replays [[1, 2]] := by
  have h : (runList (exec (retryTwice .pdHybrid) [[1, 2]]) Free
      (StreamState.new (retryTwice .pdHybrid) completion (controllerOf .pdHybrid))
      (frameThenRetry .pdHybrid false)).map
        (fun s => s.forwards.getLast?.map fun f => (f.request.prompt, f.sent)) =
      some (some (some (.text "Hello"), [.untracked])) := by decide
  obtain ⟨s, hs, hlast⟩ := Option.map_eq_some_iff.mp h
  obtain ⟨f, hf, hpair⟩ := Option.map_eq_some_iff.mp hlast
  obtain ⟨hprompt, hsent⟩ := Prod.mk.inj hpair
  refine ⟨s, runList_run hs, f, List.mem_of_getLast? hf, hsent, hprompt, fun hreplays => ?_⟩
  obtain ⟨-, ids, -, htokens, -⟩ := hreplays (by simp [hsent])
  simp [hsent, tokensOf] at htokens

end StreamState

end PyMotor.Router
