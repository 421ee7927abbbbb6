import PyMotor.Lib.Always
import PyMotor.NodeManager.HeartbeatManager

/-!
# The pause before a stop

A round of probing checks, before it puts its list in place, that no start command came in between. So the
endpoints that are managed are always those of the last start command. But nothing checks the statuses: a
round that has read a status before the pause writes over the pause. Those writes are all that can undo it
(`pause_kept_iff`).
-/

namespace PyMotor.NodeManager

open HeartbeatManager

/-- After these moves the endpoints were paused, and neither resumed nor replaced since. -/
def pauseInForce (ms : List HeartbeatMove) : Bool :=
  ms.foldl (fun inForce m =>
    match m with
    | .pauseAllEndpoints => true
    | .resumeAllEndpoints => false
    | .updateEndpoint _ => false
    | _ => inForce) false

/-- The endpoints of the last start command. -/
def lastStartCommand (ms : List HeartbeatMove) : List Endpoint :=
  ms.foldl (fun endpoints m =>
    match m with
    | .updateEndpoint msg => msg.endpoints
    | _ => endpoints) []

/-- The status that the round has read is that of a managed endpoint, and not paused. -/
def writesStale (s : HeartbeatManager) : HeartbeatMove → Bool
  | .writeStatus r _ _ _ => (s.rounds.get? r).any fun round =>
    match round.pending, round.originalStatus with
    | ref :: _, some original => decide (original ≠ .paused ∧ ref ∈ s.endpoints)
    | _, _ => false
  | _ => false

/-- While a pause is in force, every managed endpoint is paused. -/
def PauseHolds (ms : List HeartbeatMove) (s : HeartbeatManager) : Prop :=
  pauseInForce ms = true → ∀ e ∈ s.managed, e.status = .paused

/-- While a pause is in force, no round writes what it has read before. -/
def RespectsPause (ms : List HeartbeatMove) (s : HeartbeatManager) (m : HeartbeatMove) : Prop :=
  pauseInForce ms = true → writesStale s m = false

variable {ms : List HeartbeatMove} {m : HeartbeatMove} {s s' : HeartbeatManager} {r : RoundId}

theorem pauseInForce_snoc (ms : List HeartbeatMove) (m : HeartbeatMove) :
    pauseInForce (ms ++ [m]) =
      match m with
      | .pauseAllEndpoints => true
      | .resumeAllEndpoints => false
      | .updateEndpoint _ => false
      | _ => pauseInForce ms := by
  unfold pauseInForce
  rw [List.foldl_append]
  rfl

theorem lastStartCommand_snoc (ms : List HeartbeatMove) (m : HeartbeatMove) :
    lastStartCommand (ms ++ [m]) =
      match m with
      | .updateEndpoint msg => msg.endpoints
      | _ => lastStartCommand ms := by
  unfold lastStartCommand
  rw [List.foldl_append]
  rfl

/-! ## The moves of a round -/

theorem startRound_cases (h : s.startRound r = some s') :
    s' = s ∨ s' = s.setRound r ⟨s.endpointsGeneration, s.endpoints, [], none⟩ := by
  unfold startRound at h
  split at h
  · cases h
  · split at h
    · cases h
      exact Or.inl rfl
    · cases h
      exact Or.inr rfl

theorem readStatus_cases (h : s.readStatus r = some s') :
    ∃ round status, s.rounds.get? r = some round ∧
      s' = s.setRound r { round with originalStatus := some status } := by
  obtain ⟨round, hround, h⟩ := Option.bind_eq_some_iff.mp h
  split at h
  · obtain ⟨item, -, h⟩ := Option.bind_eq_some_iff.mp h
    cases h
    exact ⟨round, item.status, hround, rfl⟩
  · cases h

theorem writeStatus_cases {probe : Option RuntimeState} {restored : Bool} {podIp : String}
    (h : s.writeStatus r probe restored podIp = some s') :
    ∃ round ref rest original item, s.rounds.get? r = some round ∧ round.pending = ref :: rest ∧
      round.originalStatus = some original ∧ s.objects[ref]? = some item ∧
      s' = (s.mapStatus [ref] fun _ => statusAfter original probe restored podIp item.ip).setRound r
        { round with
          pending := rest
          updatedEndpoints := round.updatedEndpoints ++ [ref]
          originalStatus := none } := by
  obtain ⟨round, hround, h⟩ := Option.bind_eq_some_iff.mp h
  split at h
  · next ref rest original hpending horiginal =>
    obtain ⟨item, hitem, h⟩ := Option.bind_eq_some_iff.mp h
    cases h
    exact ⟨round, ref, rest, original, item, hround, hpending, horiginal, hitem, rfl⟩
  · cases h

theorem finishRound_cases (h : s.finishRound r = some s') :
    ∃ round, s.rounds.get? r = some round ∧ round.pending = [] ∧
      (s' = { s with rounds := s.rounds.erase r } ∨
        round.generationAtStart = s.endpointsGeneration ∧
        s' = { s with rounds := s.rounds.erase r, endpoints := round.updatedEndpoints }) := by
  obtain ⟨round, hround, h⟩ := Option.bind_eq_some_iff.mp h
  split at h
  · next hpending =>
    refine ⟨round, hround, hpending, ?_⟩
    simp only at h
    split at h
    · cases h
      exact Or.inl rfl
    · next hsame =>
      cases h
      exact Or.inr ⟨not_not.mp hsame, rfl⟩
  · cases h

/-! ## The list -/

/-- A round of the present generation works on the present list. -/
def OnTheList (s : HeartbeatManager) : Prop :=
  ∀ r round, s.rounds.get? r = some round →
    round.generationAtStart ≤ s.endpointsGeneration ∧
      (round.generationAtStart = s.endpointsGeneration →
        round.updatedEndpoints ++ round.pending = s.endpoints)

theorem OnTheList.setRound (h : OnTheList s) {round : RefreshRound}
    (hround : round.generationAtStart ≤ s.endpointsGeneration ∧
      (round.generationAtStart = s.endpointsGeneration →
        round.updatedEndpoints ++ round.pending = s.endpoints)) :
    OnTheList (s.setRound r round) := by
  intro r' round' hround'
  change (s.rounds.insert r round).get? r' = some round' at hround'
  rw [Dict.get?_insert] at hround'
  split at hround'
  · cases hround'
    exact hround
  · exact h r' round' hround'

theorem OnTheList.erase (h : OnTheList s) : OnTheList { s with rounds := s.rounds.erase r } := by
  intro r' round hround
  change (s.rounds.erase r).get? r' = some round at hround
  exact h r' round (Dict.get?_of_erase hround)

theorem finishRound_eq (h : OnTheList s) (hexec : s.finishRound r = some s') :
    s' = { s with rounds := s.rounds.erase r } := by
  obtain ⟨round, hround, hpending, rfl | ⟨hsame, rfl⟩⟩ := finishRound_cases hexec
  · rfl
  · have hlist := (h r round hround).2 hsame
    rw [hpending, List.append_nil] at hlist
    rw [hlist]

theorem exec_onTheList (h : OnTheList s) (hexec : s.exec m = some s') : OnTheList s' := by
  cases m with
  | updateEndpoint msg =>
    cases hexec
    intro r round hround
    have hle := (h r round hround).1
    refine ⟨Nat.le_succ_of_le hle, fun hsame => ?_⟩
    -- a round from before the start command is of an older generation
    change round.generationAtStart = s.endpointsGeneration + 1 at hsame
    omega
  | pauseAllEndpoints =>
    cases hexec
    exact h
  | resumeAllEndpoints =>
    cases hexec
    exact h
  | startRound r =>
    rcases startRound_cases hexec with rfl | rfl
    · exact h
    · exact h.setRound ⟨Nat.le_refl _, fun _ => rfl⟩
  | readStatus r =>
    obtain ⟨round, status, hround, rfl⟩ := readStatus_cases hexec
    exact h.setRound (h r round hround)
  | writeStatus r probe restored podIp =>
    obtain ⟨round, ref, rest, original, item, hround, hpending, -, -, rfl⟩ :=
      writeStatus_cases hexec
    have hwritten : OnTheList
        (s.mapStatus [ref] fun _ => statusAfter original probe restored podIp item.ip) := h
    obtain ⟨hle, hlist⟩ := h r round hround
    refine hwritten.setRound ⟨hle, fun hsame => ?_⟩
    have hlist := hlist hsame
    rw [hpending] at hlist
    rw [List.append_assoc]
    exact hlist
  | finishRound r =>
    rw [finishRound_eq h hexec]
    exact h.erase

theorem onTheList_of_run (h : Run exec Free .new ms s) : OnTheList s :=
  h.invariant_state (I := OnTheList) (fun _ _ hround => (nomatch hround))
    fun hI _ hexec => exec_onTheList hI hexec

theorem managed_eq_lastStartCommand (h : Run exec Free .new ms s) :
    s.managed.map Endpoint.key = (lastStartCommand ms).map Endpoint.key := by
  refine (h.invariant (I := fun ms s => OnTheList s ∧
    s.managed.map Endpoint.key = (lastStartCommand ms).map Endpoint.key)
    ⟨fun _ _ hround => (nomatch hround), rfl⟩ ?_).2
  rintro ms s m s' ⟨hlist, hmanaged⟩ - hexec
  refine ⟨exec_onTheList hlist hexec, ?_⟩
  rw [lastStartCommand_snoc]
  cases m with
  | updateEndpoint msg =>
    cases hexec
    rw [managed_updateEndpoint]
  | pauseAllEndpoints =>
    cases hexec
    exact (managed_mapStatus_key _ _).trans hmanaged
  | resumeAllEndpoints =>
    cases hexec
    exact (managed_mapStatus_key _ _).trans hmanaged
  | startRound r =>
    rcases startRound_cases hexec with rfl | rfl
    · exact hmanaged
    · exact hmanaged
  | readStatus r =>
    obtain ⟨round, status, -, rfl⟩ := readStatus_cases hexec
    exact hmanaged
  | writeStatus r probe restored podIp =>
    obtain ⟨round, ref, rest, original, item, -, -, -, -, rfl⟩ := writeStatus_cases hexec
    exact (managed_mapStatus_key [ref] fun _ => statusAfter original probe restored podIp
      item.ip).trans hmanaged
  | finishRound r =>
    rw [finishRound_eq hlist hexec]
    exact hmanaged

/-! ## The statuses -/

/-- A write keeps a pause exactly if what was read of a managed endpoint was the pause. -/
theorem writeStatus_pause_iff {probe : Option RuntimeState} {restored : Bool} {podIp : String}
    (hpaused : ∀ e ∈ s.managed, e.status = .paused)
    (hexec : s.writeStatus r probe restored podIp = some s') :
    (∀ e ∈ s'.managed, e.status = .paused) ↔
      writesStale s (.writeStatus r probe restored podIp) = false := by
  obtain ⟨round, ref, rest, original, item, hround, hpending, horiginal, hitem, heq⟩ :=
    writeStatus_cases hexec
  have hstale : writesStale s (.writeStatus r probe restored podIp) =
      decide (original ≠ .paused ∧ ref ∈ s.endpoints) := by
    simp only [writesStale, hround, hpending, horiginal, Option.any_some]
  have hendpoints : s'.endpoints = s.endpoints := by
    rw [heq]
    rfl
  have hwritten : ∀ ref', s'.objects[ref']? = s.objects[ref']?.map fun e =>
      if ref' ∈ [ref] then e.setStatus (statusAfter original probe restored podIp item.ip) else e := by
    intro ref'
    rw [heq]
    exact getElem?_mapStatus [ref] (fun _ => statusAfter original probe restored podIp item.ip) ref'
  rw [hstale, decide_eq_false_iff_not]
  constructor
  · rintro hkept ⟨hopen, hmanaged⟩
    have hobject : s'.objects[ref]? =
        some (item.setStatus (statusAfter original probe restored podIp item.ip)) := by
      rw [hwritten, hitem, Option.map_some, if_pos (List.mem_singleton_self ref)]
    have hpausedAfter := hkept _ (mem_managed.mpr ⟨ref, hendpoints ▸ hmanaged, hobject⟩)
    exact hopen ((statusAfter_paused_iff _ _ _ _ _).mp hpausedAfter)
  · intro hnot e he
    obtain ⟨ref', hmanaged, hobject⟩ := mem_managed.mp he
    rw [hendpoints] at hmanaged
    rw [hwritten] at hobject
    obtain ⟨e', he', rfl⟩ := Option.map_eq_some_iff.mp hobject
    split
    · next hmem =>
      cases List.mem_singleton.mp hmem
      refine (statusAfter_paused_iff _ _ _ _ _).mpr ?_
      by_contra hopen
      exact hnot ⟨hopen, hmanaged⟩
    · exact hpaused e' (mem_managed.mpr ⟨ref', hmanaged, he'⟩)

theorem exec_pause_iff (hlist : OnTheList s) (hpause : PauseHolds ms s) (hexec : s.exec m = some s') :
    PauseHolds (ms ++ [m]) s' ↔ RespectsPause ms s m := by
  unfold PauseHolds RespectsPause
  rw [pauseInForce_snoc]
  cases m with
  | updateEndpoint msg => exact iff_of_true (fun h => (nomatch h)) fun _ => rfl
  | pauseAllEndpoints =>
    cases hexec
    exact iff_of_true (fun _ => status_pauseAllEndpoints s) fun _ => rfl
  | resumeAllEndpoints => exact iff_of_true (fun h => (nomatch h)) fun _ => rfl
  | startRound r =>
    refine iff_of_true ?_ fun _ => rfl
    rcases startRound_cases hexec with rfl | rfl
    · exact hpause
    · exact hpause
  | readStatus r =>
    refine iff_of_true ?_ fun _ => rfl
    obtain ⟨round, status, -, rfl⟩ := readStatus_cases hexec
    exact hpause
  | writeStatus r probe restored podIp =>
    exact imp_congr_right fun hforce => writeStatus_pause_iff (hpause hforce) hexec
  | finishRound r =>
    refine iff_of_true ?_ fun _ => rfl
    rw [finishRound_eq hlist hexec]
    exact hpause

/-- **The pause stays**, from when it is made until the endpoints are resumed or replaced, exactly if no
round writes a status that it has read before. The endpoints are those of the last start command in any
case. -/
theorem pause_kept_iff (h : Run exec Free .new ms s) :
    (Always exec .new PauseHolds ms ↔ EachStep exec .new RespectsPause ms) ∧
      s.managed.map Endpoint.key = (lastStartCommand ms).map Endpoint.key :=
  ⟨h.always_iff (fun hforce => (nomatch hforce)) fun hrun hpause hexec =>
      exec_pause_iff (onTheList_of_run hrun) hpause hexec,
    managed_eq_lastStartCommand h⟩

/-- What the outside sees of a pause: the readiness probe fails, and heartbeats report nothing else. -/
theorem paused_seen (hpaused : ∀ e ∈ s.managed, e.status = .paused) :
    s.checkAllEndpointsNormal = false ∧
      ∀ id status, s.endpointStatusList.get? id = some status → status = .paused := by
  constructor
  · unfold checkAllEndpointsNormal
    cases hmanaged : s.managed with
    | nil => rfl
    | cons e es =>
      have hstatus := hpaused e (hmanaged ▸ List.mem_cons_self)
      rw [List.all_cons, hstatus]
      rfl
  · have hreported : ∀ (es : List Endpoint) (statuses : Dict ℤ EndpointStatus),
        (∀ e ∈ es, e.status = .paused) →
        (∀ id status, statuses.get? id = some status → status = .paused) →
        ∀ id status, (es.foldl (fun statuses e => statuses.insert e.id e.status) statuses).get? id =
          some status → status = .paused := by
      intro es
      induction es with
      | nil => exact fun _ _ h => h
      | cons e es ih =>
        intro statuses hes h
        refine ih _ (fun e he => hes e (List.mem_cons_of_mem _ he)) fun id status hid => ?_
        rw [Dict.get?_insert] at hid
        split at hid
        · cases hid
          exact hes e List.mem_cons_self
        · exact h id status hid
    exact hreported s.managed ∅ hpaused fun _ _ h => (nomatch h)

/-- A start command for one endpoint. -/
def startOne : HeartbeatMove :=
  .updateEndpoint ⟨"job", "prefill", 1, [⟨0, "192.168.1.1", .initial⟩]⟩

/-- A round that starts after the pause leaves it in force. -/
theorem roundAfterPause_paused :
    ∃ s, Run exec Free .new [startOne, .pauseAllEndpoints, .startRound 0, .readStatus 0,
        .writeStatus 0 (some .ready) false "192.168.1.1", .finishRound 0] s ∧
      s.managed = [⟨0, "192.168.1.1", .paused⟩] ∧ s.checkAllEndpointsNormal = false := by
  obtain ⟨s, hrun, hmanaged⟩ : ∃ s, Run exec (fun s m => writesStale s m = false) .new
      [startOne, .pauseAllEndpoints, .startRound 0, .readStatus 0,
        .writeStatus 0 (some .ready) false "192.168.1.1", .finishRound 0] s ∧
      managed s = [⟨0, "192.168.1.1", .paused⟩] := runList_exists (by decide +kernel)
  have halways := (pause_kept_iff hrun.free).1.mpr fun pre m s hpre h _ =>
    hrun.eachStep pre m s hpre h
  exact ⟨s, hrun.free, hmanaged,
    (paused_seen (halways _ s (List.prefix_refl _) hrun.free (by decide))).1⟩

/-- A round that has read the status before the pause writes over it. -/
theorem roundBeforePause_undoesIt :
    ∃ s, Run exec Free .new [startOne, .startRound 0, .readStatus 0, .pauseAllEndpoints,
        .writeStatus 0 (some .ready) false "192.168.1.1"] s ∧
      pauseInForce [startOne, .startRound 0, .readStatus 0, .pauseAllEndpoints,
        .writeStatus 0 (some .ready) false "192.168.1.1"] = true ∧
      s.managed = [⟨0, "192.168.1.1", .normal⟩] := by
  obtain ⟨s, hrun, hmanaged⟩ : ∃ s, Run exec Free .new
      [startOne, .startRound 0, .readStatus 0, .pauseAllEndpoints,
        .writeStatus 0 (some .ready) false "192.168.1.1"] s ∧
      managed s = [⟨0, "192.168.1.1", .normal⟩] := runList_exists (by decide +kernel)
  exact ⟨s, hrun, by decide, hmanaged⟩

end PyMotor.NodeManager
