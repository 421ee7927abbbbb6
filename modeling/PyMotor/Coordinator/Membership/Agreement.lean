import PyMotor.Coordinator.Membership.Events
import PyMotor.Lib.Run

/-!
# Agreement

A worker that believes to have the scheduler's version has the scheduler's instances. The cache is a
replica of the membership: it is always up to the versions in `asOf`, so agreement comes down to
never believing in a version that is newer than them. The worker does that in three places. It takes
over the version of a pull that failed; it takes over the first version it reads in the segment
without a pull; and it stores the answer of a pull that has been overtaken, without a look at the
version. `KeepsAgreement` excludes these, and events that do not do what they announce.
-/

namespace PyMotor.Coordinator

/-! ## Worker operations -/

namespace SchedulerClient

variable {c c' : SchedulerClient}

theorem foldl_replaceAll {cache : InstanceCache} (h : cache.WF) (l : PDRole → List Instance)
    (roles : List PDRole) :
    (roles.foldl (fun cache role => cache.replaceAll role (l role)) cache).WF ∧
      ∀ k, k ∈ (roles.foldl (fun cache role => cache.replaceAll role (l role)) cache).members ↔
        if k.1 ∈ roles then k.2 ∈ (l k.1).map (·.id) else k ∈ cache.members := by
  induction roles generalizing cache with
  | nil => simp [h]
  | cons role roles ih =>
    obtain ⟨hwf, hmem⟩ := ih (h.replaceAll role (l role))
    refine ⟨hwf, fun k => ?_⟩
    rw [List.foldl_cons, hmem, InstanceCache.mem_members_replaceAll]
    grind

theorem attachReader_cache (outcome : AttachOutcome) :
    (c.attachReader outcome).2.cache = c.cache := by
  unfold attachReader
  split <;> rfl

/-- A version survives an attempt to attach only if nothing was attached. -/
theorem last_of_attachReader {outcome : AttachOutcome} {v : Nat}
    (hlast : (c.attachReader outcome).2.lastInstanceVersion = some v) :
    c.lastInstanceVersion = some v ∧
      ((c.attachReader outcome).1 = true → c.workloadReader = .absent → outcome = .notFound) := by
  unfold attachReader at hlast ⊢
  grind

@[simp] theorem afterGet_cache (after : AfterGet) : (c.afterGet after).cache = c.cache := by
  unfold afterGet
  split <;> rfl

theorem last_of_afterGet {after : AfterGet} {v : Nat}
    (hlast : (c.afterGet after).lastInstanceVersion = some v) :
    after.version = some v ∨ (after.version = none ∧ c.lastInstanceVersion = some v) := by
  unfold afterGet at hlast
  unfold AfterGet.version
  grind

/-- A read comes to nothing, makes the worker pull, or gives it the version. -/
theorem refreshCacheFromWorkloadReader_cases (c : SchedulerClient) (read : Option (Nat × Bool)) :
    c.refreshCacheFromWorkloadReader read = (c, none) ∨
    (∃ v stale, read = some (v, stale) ∧
      c.refreshCacheFromWorkloadReader read = (c, some (.pulled (some v)))) ∨
    ∃ v, read = some (v, false) ∧ c.workloadReader = .attached ∧
      (c.lastInstanceVersion = none ∨ c.lastInstanceVersion = some v) ∧
      c.refreshCacheFromWorkloadReader read = ({ c with lastInstanceVersion := some v }, none) := by
  unfold refreshCacheFromWorkloadReader
  split
  · exact Or.inr (Or.inl ⟨_, _, rfl, rfl⟩)
  · next version hreader =>
    split
    · exact Or.inr (Or.inl ⟨_, _, rfl, rfl⟩)
    · next hknown =>
      refine Or.inr (Or.inr ⟨version, rfl, hreader, ?_, rfl⟩)
      grind
  · exact Or.inl rfl

/-- **A published change** is applied if it is the next one, and then as it is. -/
theorem tryApplyInstanceDelta_inv {version : Nat} {delta : Option InstanceDelta}
    (h : c.tryApplyInstanceDelta (some version) delta = some c') :
    ∃ d last, delta = some d ∧ c.lastInstanceVersion = some last ∧ version = last + 1 ∧
      c'.lastInstanceVersion = some version ∧
      (c.cache.WF → c'.cache.WF ∧ c'.cache.members = d.patch.apply c.cache.members) := by
  unfold tryApplyInstanceDelta at h
  split at h
  · next d version' last hversion hlast =>
    cases hversion
    split at h
    · cases h
    · next hnext =>
      have hnext : version = last + 1 := by
        by_contra hne
        exact hnext (Or.inl hne)
      refine ⟨d, last, rfl, hlast, hnext, ?_⟩
      obtain ⟨event, instances⟩ := d
      cases event with
      | add =>
        obtain ⟨cache, hcache, rfl⟩ := Option.map_eq_some_iff.mp h
        exact ⟨rfl, fun hwf => hwf.applyAdd hcache⟩
      | del =>
        cases h
        exact ⟨rfl, fun hwf => hwf.applyRemove instances⟩
  · cases h

end SchedulerClient

namespace Membership

/-! ## The condition -/

/-- Everything cached is from that version or a later one. -/
def Covers (s : Membership) (v : Nat) : Prop := ∀ role ∈ PDRole.all, v ≤ s.asOf role

instance (s : Membership) (v : Nat) : Decidable (s.Covers v) :=
  inferInstanceAs (Decidable (∀ role ∈ PDRole.all, v ≤ s.asOf role))

/-- A version that is taken over without an answer is covered. -/
def AdoptsCovered (s : Membership) (after : AfterGet) : Prop := ∀ v ∈ after.version, s.Covers v

instance (s : Membership) (after : AfterGet) : Decidable (s.AdoptsCovered after) :=
  inferInstanceAs (Decidable (∀ v ∈ after.version, s.Covers v))

/-- A refusal brings no version that is not covered, and an answer that brings none, if it is stored
and the version not reset, is not older than the version the worker has. -/
def DeliversFresh (s : Membership) (outcome : AttachOutcome) (call : GetCall) (answer : Answer) :
    Prop :=
  match answer.reply with
  | .error => s.AdoptsCovered call.after
  | .success _ =>
    call.after.version = none → (s.client.workloadReader = .absent ∧ outcome ≠ .notFound) ∨
      ∀ v ∈ s.client.lastInstanceVersion, v ≤ answer.version

instance (s : Membership) (outcome : AttachOutcome) (call : GetCall) :
    ∀ answer, Decidable (s.DeliversFresh outcome call answer)
  | ⟨.error, _⟩ => inferInstanceAs (Decidable (s.AdoptsCovered call.after))
  | ⟨.success _, version⟩ =>
    inferInstanceAs (Decidable (call.after.version = none →
      (s.client.workloadReader = .absent ∧ outcome ≠ .notFound) ∨
        ∀ v ∈ s.client.lastInstanceVersion, v ≤ version))

/-- The steps that keep the worker from believing in a version it does not have. -/
def KeepsAgreement (s : Membership) : MembershipStep → Prop
  | .refresh _ eventType instances => s.server.instanceManager.Announces instances eventType
  | .read stale =>
    stale = some false → s.client.workloadReader = .attached → s.client.lastInstanceVersion = none →
      s.Covers s.server.headerVersion
  | .deliver i outcome =>
    ∀ call ∈ s.calls[i]?, ∀ answer ∈ call.answer, s.DeliversFresh outcome call answer
  | .timeOut i => ∀ call ∈ s.calls[i]?, s.AdoptsCovered call.after
  | _ => True

instance (s : Membership) : ∀ step, Decidable (s.KeepsAgreement step)
  | .refresh _ eventType instances =>
    inferInstanceAs (Decidable (s.server.instanceManager.Announces instances eventType))
  | .snapshot => isTrue trivial
  | .lose _ => isTrue trivial
  | .notify _ => isTrue trivial
  | .get _ => isTrue trivial
  | .read stale =>
    inferInstanceAs (Decidable (stale = some false → s.client.workloadReader = .attached →
      s.client.lastInstanceVersion = none → s.Covers s.server.headerVersion))
  | .answer _ _ => isTrue trivial
  | .deliver i outcome =>
    inferInstanceAs (Decidable
      (∀ call ∈ s.calls[i]?, ∀ answer ∈ call.answer, s.DeliversFresh outcome call answer))
  | .timeOut i => inferInstanceAs (Decidable (∀ call ∈ s.calls[i]?, s.AdoptsCovered call.after))

/-! ## The invariant -/

variable {past : Nat → Set (PDRole × InstanceId)} {cur : Nat} {s s' : Membership}

/-- A publication in flight is about a version that was, and its patch led to it. -/
structure Sent (past : Nat → Set (PDRole × InstanceId)) (cur : Nat) (changed : InstanceChanged) :
    Prop where
  bounded : changed.version ≤ cur
  patch : ∀ delta, changed.delta = some delta →
    ∃ v, changed.version = v + 1 ∧ past (v + 1) = delta.patch.apply (past v)

/-- A pull that takes over a version asks for everything, and its answer is not older; an answer is
what was available at its version. -/
structure Pending (past : Nat → Set (PDRole × InstanceId)) (cur : Nat) (call : GetCall) : Prop where
  full : ∀ v, call.after.version = some v → call.asked = none
  bounded : ∀ v, call.after.version = some v → v ≤ cur
  answered : ∀ answer, call.answer = some answer → answer.version ≤ cur ∧
    ∀ v, call.after.version = some v → v ≤ answer.version
  content : ∀ answer instances, call.answer = some answer → answer.reply = .success instances →
    ∀ role ∈ SchedulerClient.answeredRoles call.asked, ∀ id,
      id ∈ (SchedulerClient.sharedOut call.asked instances role).map (·.id) ↔
        (role, id) ∈ past answer.version

structure Inv (past : Nat → Set (PDRole × InstanceId)) (s : Membership) : Prop where
  pools : ∃ w, s.server.instanceManager.Represents w
  current : past s.server.instanceVersion = s.server.instanceManager.members
  cached : s.client.cache.WF
  upTo : UpTo past s.server.instanceVersion (fun k => s.asOf k.1) s.client.cache.members
  bounded : ∀ role, s.asOf role ≤ s.server.instanceVersion
  covered : ∀ v, s.client.lastInstanceVersion = some v → ∀ role, v ≤ s.asOf role
  sent : ∀ changed ∈ s.notifications, Sent past s.server.instanceVersion changed
  pending : ∀ call ∈ s.calls, Pending past s.server.instanceVersion call

theorem inv_start : Inv (fun _ => ∅) start where
  pools := ⟨_, InstanceManager.represents_new⟩
  current := by
    ext k
    simp [start, SchedulerServer.start, InstanceManager.members, InstanceManager.new, Dict.contains]
  cached := InstanceCache.new_wf
  upTo k _ := by simp [start, SchedulerClient.new, InstanceCache.new, InstanceCache.members]
  bounded _ := le_rfl
  covered _ h := by cases h
  sent _ h := by cases h
  pending _ h := by cases h

/-- **The worker that has the version has the instances.** -/
theorem Inv.members_eq (h : Inv past s)
    (hlast : s.client.lastInstanceVersion = some s.server.instanceVersion) :
    s.client.cache.members = s.server.instanceManager.members := by
  rw [← h.current]
  exact h.upTo.eq_of_current fun k => h.covered _ hlast k.1

/-! ## Steps of the scheduler -/

section History

variable {past' : Nat → Set (PDRole × InstanceId)} {cur' : Nat}

theorem Sent.mono {changed : InstanceChanged} (h : Sent past cur changed) (hle : cur ≤ cur')
    (hpast : ∀ v, v ≤ cur → past' v = past v) : Sent past' cur' changed where
  bounded := h.bounded.trans hle
  patch delta hdelta := by
    obtain ⟨v, hv, hp⟩ := h.patch delta hdelta
    have hbounded := h.bounded
    refine ⟨v, hv, ?_⟩
    rw [hpast (v + 1) (by omega), hpast v (by omega)]
    exact hp

theorem Pending.mono {call : GetCall} (h : Pending past cur call) (hle : cur ≤ cur')
    (hpast : ∀ v, v ≤ cur → past' v = past v) : Pending past' cur' call where
  full := h.full
  bounded v hv := (h.bounded v hv).trans hle
  answered answer ha := ⟨(h.answered answer ha).1.trans hle, (h.answered answer ha).2⟩
  content answer instances ha hreply role hrole id := by
    rw [hpast answer.version (h.answered answer ha).1]
    exact h.content answer instances ha hreply role hrole id

end History

theorem Inv.advance (h : Inv past s) {m : InstanceManager} (hm : ∃ w, m.Represents w) :
    Inv (Function.update past (s.server.instanceVersion + 1) m.members)
      { s with server := ⟨m, s.server.instanceVersion + 1⟩ } := by
  have hpast : ∀ v, v ≤ s.server.instanceVersion →
      Function.update past (s.server.instanceVersion + 1) m.members v = past v := by
    intro v hv
    exact Function.update_of_ne (by omega) _ _
  exact {
    pools := hm
    current := Function.update_self _ _ _
    cached := h.cached
    upTo := h.upTo.advance (fun k => h.bounded k.1) _
    bounded := fun role => (h.bounded role).trans (Nat.le_succ _)
    covered := h.covered
    sent := fun changed hc => (h.sent changed hc).mono (Nat.le_succ _) hpast
    pending := fun call hc => (h.pending call hc).mono (Nat.le_succ _) hpast }

theorem Inv.keepMembers (h : Inv past s) {m : InstanceManager} (hm : ∃ w, m.Represents w)
    (hsame : m.members = s.server.instanceManager.members) :
    Inv past { s with server := ⟨m, s.server.instanceVersion⟩ } :=
  { h with pools := hm, current := h.current.trans hsame.symm }

theorem Inv.send (h : Inv past s) {changed : InstanceChanged}
    (hsent : Sent past s.server.instanceVersion changed) :
    Inv past { s with notifications := s.notifications ++ [changed] } :=
  { h with
    sent := by
      intro changed' hc
      rcases List.mem_append.mp hc with hc | hc
      · exact h.sent changed' hc
      · rw [List.mem_singleton.mp hc]
        exact hsent }

/-- **An event** is published with a patch that leads from the version before to its own. -/
theorem Inv.refresh (h : Inv past s) {σ : HashOrder InstanceId} {eventType : EventType}
    {instances : List Instance} (ha : s.server.instanceManager.Announces instances eventType)
    (he : s.exec (.refresh σ eventType instances) = some s') : ∃ past', Inv past' s' := by
  obtain ⟨w, hw⟩ := h.pools
  have hkept : ∃ w', (s.server.instanceManager.refreshInstances σ eventType instances).2.Represents w' :=
    InstanceManager.exec_represents ⟨w, hw⟩ (InstanceManager.keepsPools_of_announces ha) rfl
  obtain ⟨r, hr⟩ := hw.refreshInstances_returns ha (σ := σ)
  have hpatch : ∀ delta, SchedulerServer.buildInstanceDelta eventType instances = some delta →
      (s.server.instanceManager.refreshInstances σ eventType instances).2.members =
        delta.patch.apply s.server.instanceManager.members :=
    fun _ hdelta => hw.refreshInstances_members ha hdelta
  cases hrefresh : s.server.instanceManager.refreshInstances σ eventType instances with
  | mk r' m =>
    rw [hrefresh] at hr hkept hpatch
    subst hr
    simp only [exec, SchedulerServer.handleRefreshInstances, hrefresh] at he
    cases r with
    | false =>
      cases he
      have hsame := InstanceManager.refreshInstances_honest ha hrefresh
      refine ⟨past, ?_⟩
      simp only [Option.toList_none, List.append_nil]
      apply h.keepMembers hkept
      unfold InstanceManager.members
      rw [hsame]
    | true =>
      cases he
      refine ⟨_, (h.advance hkept).send ⟨le_rfl, fun delta hdelta => ?_⟩⟩
      refine ⟨s.server.instanceVersion, rfl, ?_⟩
      rw [Function.update_self, Function.update_of_ne (by omega), h.current]
      exact hpatch delta hdelta

/-! ## Steps of the worker -/

theorem Inv.setClient (h : Inv past s) {client : SchedulerClient} {asOf : PDRole → Nat}
    (hcached : client.cache.WF)
    (hupTo : UpTo past s.server.instanceVersion (fun k => asOf k.1) client.cache.members)
    (hbounded : ∀ role, asOf role ≤ s.server.instanceVersion)
    (hcovered : ∀ v, client.lastInstanceVersion = some v → ∀ role, v ≤ asOf role) :
    Inv past { s with client := client, asOf := asOf } :=
  { h with cached := hcached, upTo := hupTo, bounded := hbounded, covered := hcovered }

theorem Inv.setVersion (h : Inv past s) {client : SchedulerClient}
    (hcache : client.cache = s.client.cache)
    (hcovered : ∀ v, client.lastInstanceVersion = some v → ∀ role, v ≤ s.asOf role) :
    Inv past { s with client := client } := by
  apply h.setClient
  · rw [hcache]
    exact h.cached
  · rw [hcache]
    exact h.upTo
  · exact h.bounded
  · exact hcovered

theorem Inv.call (h : Inv past s) {call : GetCall}
    (hpending : Pending past s.server.instanceVersion call) :
    Inv past { s with calls := s.calls ++ [call] } :=
  { h with
    pending := by
      intro call' hc
      rcases List.mem_append.mp hc with hc | hc
      · exact h.pending call' hc
      · rw [List.mem_singleton.mp hc]
        exact hpending }

theorem Pending.unanswered {asked : Option PDRole} {after : AfterGet}
    (hfull : ∀ v, after.version = some v → asked = none ∧ v ≤ cur) :
    Pending past cur ⟨asked, after, none⟩ where
  full v hv := (hfull v hv).1
  bounded v hv := (hfull v hv).2
  answered _ ha := by cases ha
  content _ _ ha := by cases ha

theorem Inv.forget (h : Inv past s) {notifications : List InstanceChanged} {calls : List GetCall}
    (hsent : ∀ changed ∈ notifications, changed ∈ s.notifications)
    (hpending : ∀ call ∈ calls, call ∈ s.calls) :
    Inv past { s with notifications := notifications, calls := calls } :=
  { h with
    sent := fun changed hc => h.sent changed (hsent changed hc)
    pending := fun call hc => h.pending call (hpending call hc) }

/-- **A publication** is known, patched in, or makes the worker pull. -/
theorem Inv.notify (h : Inv past s) {changed : InstanceChanged}
    (hsent : Sent past s.server.instanceVersion changed) : Inv past (s.notify changed) := by
  unfold Membership.notify
  cases hnotify : s.client.onInstanceChangeNotify (some changed.version) changed.delta with
  | known => exact h
  | pull =>
    apply h.call
    apply Pending.unanswered
    intro v hv
    cases hv
    exact ⟨rfl, hsent.bounded⟩
  | patched client =>
    have happly : s.client.tryApplyInstanceDelta (some changed.version) changed.delta =
        some client := by
      unfold SchedulerClient.onInstanceChangeNotify at hnotify
      split at hnotify
      · cases hnotify
      · split at hnotify
        · next hsome =>
          cases hnotify
          exact hsome
        · cases hnotify
    obtain ⟨delta, last, hdelta, hlast, hnext, hlast', hpatch⟩ :=
      SchedulerClient.tryApplyInstanceDelta_inv happly
    obtain ⟨hwf, hmem⟩ := hpatch h.cached
    obtain ⟨v, hv, hp⟩ := hsent.patch delta hdelta
    obtain rfl : v = last := by omega
    apply h.setClient hwf
    · rw [hmem, hnext]
      exact h.upTo.patch (fun k => h.covered v hlast k.1) (hnext ▸ hsent.bounded) hp
    · exact fun _ => hsent.bounded
    · intro u hu role
      rw [hlast'] at hu
      cases hu
      exact le_rfl

/-- **Reading the segment** takes over a version, or pulls it. -/
theorem Inv.read (h : Inv past s) {stale : Option Bool} (hkeeps : s.KeepsAgreement (.read stale)) :
    Inv past (s.read stale) := by
  have hheader : s.server.headerVersion ≤ s.server.instanceVersion := Nat.mod_le _ _
  unfold Membership.read
  rcases s.client.refreshCacheFromWorkloadReader_cases
    (stale.map fun stale => (s.server.headerVersion, stale)) with
    hread | ⟨v, stale', hfound, hread⟩ | ⟨v, hfound, hreader, hlast, hread⟩
  · simp only [hread]
    exact h
  · obtain ⟨_, -, hfound⟩ := Option.map_eq_some_iff.mp hfound
    cases hfound
    simp only [hread]
    apply h.call
    apply Pending.unanswered
    intro v hv
    cases hv
    exact ⟨rfl, hheader⟩
  · obtain ⟨_, hstale, hfound⟩ := Option.map_eq_some_iff.mp hfound
    cases hfound
    simp only [hread]
    apply h.setVersion
    · rfl
    · intro v hv role
      cases hv
      rcases hlast with hnone | hsame
      · exact hkeeps hstale hreader hnone role role.mem_all
      · exact h.covered _ hsame role

/-- **An answer** has what is available when it is given. -/
theorem Inv.answer (h : Inv past s) {i : Nat} {call : GetCall} (hcall : call ∈ s.calls)
    (succeeds : Bool) : Inv past (s.answer i call succeeds) := by
  have hpending := h.pending call hcall
  obtain ⟨w, hw⟩ := h.pools
  refine { h with pending := fun call' hc => ?_ }
  rcases List.mem_or_eq_of_mem_set hc with hc | rfl
  · exact h.pending call' hc
  · refine ⟨hpending.full, hpending.bounded, fun answer ha => ?_,
      fun answer instances ha hreply role hrole id => ?_⟩
    · cases ha
      exact ⟨le_rfl, hpending.bounded⟩
    · cases ha
      cases succeeds with
      | false => cases hreply
      | true =>
        cases hreply
        rw [h.current]
        exact hw.mem_sharedOut hrole

theorem Inv.afterGet (h : Inv past s) {after : AfterGet} (hadopts : s.AdoptsCovered after) :
    Inv past { s with client := s.client.afterGet after } := by
  apply h.setVersion (SchedulerClient.afterGet_cache after)
  intro v hv role
  rcases SchedulerClient.last_of_afterGet hv with hversion | ⟨-, hlast⟩
  · exact hadopts v hversion role role.mem_all
  · exact h.covered v hlast role

/-- **A reply** is stored before its version is taken over. -/
theorem Inv.deliver (h : Inv past s) {outcome : AttachOutcome} {call : GetCall} {answer : Answer}
    (hpending : Pending past s.server.instanceVersion call) (hanswer : call.answer = some answer)
    (hfresh : s.DeliversFresh outcome call answer) : Inv past (s.deliver call answer outcome) := by
  obtain ⟨reply, version⟩ := answer
  obtain ⟨hversion, hnewer⟩ := hpending.answered _ hanswer
  unfold Membership.deliver asOfAfter SchedulerClient.finishGet SchedulerClient.getAvailableInstances
  cases reply with
  | error => exact h.afterGet hfresh
  | success instances =>
    have hcache : (s.client.attachReader outcome).2.cache = s.client.cache :=
      SchedulerClient.attachReader_cache outcome
    have hlast : ∀ v, (s.client.attachReader outcome).2.lastInstanceVersion = some v →
        s.client.lastInstanceVersion = some v ∧ ((s.client.attachReader outcome).1 = true →
          s.client.workloadReader = .absent → outcome = .notFound) :=
      fun _ => SchedulerClient.last_of_attachReader
    cases hattach : s.client.attachReader outcome with
    | mk goesOn client =>
      rw [hattach] at hcache hlast
      cases goesOn with
      | false =>
        apply h.setVersion hcache
        intro v hv
        exact h.covered v (hlast v hv).1
      | true =>
        have hcache : client.cache = s.client.cache := hcache
        -- the roles that were asked for are replaced, the others stay
        obtain ⟨hwf, hmem⟩ := SchedulerClient.foldl_replaceAll (hcache ▸ h.cached)
          (SchedulerClient.sharedOut call.asked instances)
          (SchedulerClient.answeredRoles call.asked)
        show Inv past { s with
          client := (client.storeInstances call.asked instances).afterGet call.after
          asOf := fun role =>
            if role ∈ SchedulerClient.answeredRoles call.asked then version else s.asOf role }
        apply h.setClient
        · rw [SchedulerClient.afterGet_cache]
          exact hwf
        · rw [SchedulerClient.afterGet_cache]
          apply h.upTo.answer
          intro k
          rw [SchedulerClient.storeInstances, hmem]
          by_cases hrole : k.1 ∈ SchedulerClient.answeredRoles call.asked
          · right
            simp only [hrole, ↓reduceIte]
            exact ⟨hversion, hpending.content _ _ hanswer rfl _ hrole _⟩
          · left
            simp [hrole, hcache]
        · intro role
          split
          · exact hversion
          · exact h.bounded role
        · intro v hv role
          rcases SchedulerClient.last_of_afterGet hv with hadopts | ⟨hnone, hold⟩
          · -- a pull that takes over a version is about every role
            have hrole : role ∈ SchedulerClient.answeredRoles call.asked := by
              rw [hpending.full v hadopts]
              exact role.mem_all
            rw [if_pos hrole]
            exact hnewer v hadopts
          · obtain ⟨hbefore, hnotFound⟩ := hlast v hold
            split
            · rcases hfresh hnone with ⟨habsent, hne⟩ | hle
              · exact absurd (hnotFound rfl habsent) hne
              · exact hle v hbefore
            · exact h.covered v hbefore role

/-! ## Runs -/

/-- **Every step keeps the invariant.** -/
theorem exec_inv {step : MembershipStep} (h : ∃ past, Inv past s) (hkeeps : s.KeepsAgreement step)
    (he : s.exec step = some s') : ∃ past, Inv past s' := by
  obtain ⟨past, h⟩ := h
  cases step with
  | refresh σ eventType instances => exact h.refresh hkeeps he
  | snapshot =>
    cases he
    exact ⟨_, h.advance h.pools⟩
  | lose i =>
    obtain ⟨changed, -, rfl⟩ := Option.map_eq_some_iff.mp he
    exact ⟨past, h.forget (fun _ hc => List.mem_of_mem_eraseIdx hc) fun _ hc => hc⟩
  | notify i =>
    simp only [exec] at he
    split at he
    · cases he
    · obtain ⟨changed, hget, rfl⟩ := Option.map_eq_some_iff.mp he
      have hrest := h.forget (fun _ hc => List.mem_of_mem_eraseIdx (i := i) hc) fun _ hc => hc
      exact ⟨past, hrest.notify (h.sent changed (List.mem_of_getElem? hget))⟩
  | get asked =>
    cases he
    exact ⟨past, h.call (Pending.unanswered fun v hv => by cases hv)⟩
  | read stale =>
    cases he
    exact ⟨past, h.read hkeeps⟩
  | answer i succeeds =>
    obtain ⟨call, hget, he⟩ := Option.bind_eq_some_iff.mp he
    split at he
    · cases he
      exact ⟨past, h.answer (List.mem_of_getElem? hget) succeeds⟩
    · cases he
  | deliver i outcome =>
    obtain ⟨call, hget, he⟩ := Option.bind_eq_some_iff.mp he
    obtain ⟨answer, hanswer, rfl⟩ := Option.map_eq_some_iff.mp he
    have hrest := h.forget (fun _ hc => hc) fun _ hc => List.mem_of_mem_eraseIdx (i := i) hc
    exact ⟨past, hrest.deliver (h.pending call (List.mem_of_getElem? hget)) hanswer
      (hkeeps call hget answer hanswer)⟩
  | timeOut i =>
    obtain ⟨call, hget, rfl⟩ := Option.map_eq_some_iff.mp he
    have hrest := h.forget (fun _ hc => hc) fun _ hc => List.mem_of_mem_eraseIdx (i := i) hc
    exact ⟨past, hrest.afterGet (hkeeps call hget)⟩

/-- The worker has cached, for every role, the ids that are available under it. -/
def Agrees (s : Membership) : Prop :=
  ∀ role id, id ∈ (s.client.cache.instanceCache role).map (·.id) ↔
    (s.server.instanceManager.rolePools role).contains id = true

/-- Nothing is in flight. -/
def Quiet (s : Membership) : Prop := s.notifications = [] ∧ s.calls = []

/-- **Agreement**: in every run whose steps keep it, a worker that has the version of the scheduler has
its instances, whatever is still in flight. -/
theorem agrees_of_version {steps : List MembershipStep} (hrun : Run exec KeepsAgreement start steps s)
    (hversion : s.client.lastInstanceVersion = some s.server.instanceVersion) : s.Agrees := by
  obtain ⟨past, h⟩ := hrun.invariant_state (I := fun s => ∃ past, Inv past s) ⟨_, inv_start⟩
    fun h hkeeps he => exec_inv h hkeeps he
  have hmem := h.members_eq hversion
  intro role id
  show (role, id) ∈ s.client.cache.members ↔ (role, id) ∈ s.server.instanceManager.members
  rw [hmem]

/-- The worker connects and reads its first version. -/
def connectSteps : List MembershipStep :=
  [.get none, .answer 0 true, .deliver 0 .attached, .read (some false)]

/-- One publication is patched in, and of the next two one overtakes the other, which is then lost. -/
def overtakingSteps : List MembershipStep :=
  connectSteps ++
    [.refresh .insertion .add [InstanceManager.oneEndpoint 1 "p" "prefill"], .notify 0,
     .refresh .insertion .add [InstanceManager.oneEndpoint 2 "d" "decode"],
     .refresh .insertion .del [InstanceManager.oneEndpoint 1 "p" "prefill"], .notify 1,
     .lose 0, .answer 0 true, .deliver 0 .attached, .read (some false)]

theorem overtakingSteps_agree : ∃ s, Run exec KeepsAgreement start overtakingSteps s ∧
    s.client.lastInstanceVersion = some s.server.instanceVersion ∧
    (s.client.cache.instanceCache .decode).map (·.id) = [2] ∧ s.Agrees := by
  have hrun : (runList exec KeepsAgreement start overtakingSteps).map (fun s =>
      (s.client.lastInstanceVersion, s.server.instanceVersion,
        (s.client.cache.instanceCache .decode).map (·.id))) = some (some 4, 4, [2]) := by decide
  obtain ⟨s, hs, hstate⟩ := Option.map_eq_some_iff.mp hrun
  simp only [Prod.mk.injEq] at hstate
  obtain ⟨hlast, hversion, hcached⟩ := hstate
  have heq : s.client.lastInstanceVersion = some s.server.instanceVersion := by rw [hlast, hversion]
  exact ⟨s, runList_run hs, heq, hcached, agrees_of_version (runList_run hs) heq⟩

/-- A publication is lost. The worker finds the new version in the segment, and its pull times out. -/
def timeOutSteps : List MembershipStep :=
  connectSteps ++
    [.refresh .insertion .add [InstanceManager.oneEndpoint 1 "p" "prefill"], .lose 0,
     .read (some false), .timeOut 0]

/-- The worker now has the version, but not the instance. -/
theorem timeOutSteps_disagree : ∃ s, Run exec Free start timeOutSteps s ∧ s.Quiet ∧
    s.client.lastInstanceVersion = some s.server.instanceVersion ∧ ¬ s.Agrees := by
  have hrun : (runList exec Free start timeOutSteps).map (fun s =>
      (s.client.lastInstanceVersion, s.server.instanceVersion, s.notifications.length,
        s.calls.length, (s.client.cache.instanceCache .prefill).map (·.id),
        (s.server.instanceManager.rolePools .prefill).contains 1)) =
      some (some 2, 2, 0, 0, [], true) := rfl
  obtain ⟨s, hs, hstate⟩ := Option.map_eq_some_iff.mp hrun
  simp only [Prod.mk.injEq, List.length_eq_zero_iff] at hstate
  obtain ⟨hlast, hversion, hnotifications, hcalls, hcached, havailable⟩ := hstate
  refine ⟨s, runList_run hs, ⟨hnotifications, hcalls⟩, by rw [hlast, hversion], fun hagrees => ?_⟩
  have hmem := (hagrees .prefill 1).mpr havailable
  rw [hcached] at hmem
  cases hmem

end Membership

end PyMotor.Coordinator
