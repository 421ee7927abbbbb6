import PyMotor.Common.StandbyManager
import PyMotor.Lib.Always

/-!
# Renewing the lease

A round of renewals makes up to three attempts, but a call that fails leaves no lease on record, and the
attempts after it make no call. So a master steps down after a single call that failed: it loses its role
over a lease that is still good unless the lease expires before the last attempt (`master_survives_iff`). A
call that succeeds keeps the lease on record, and the next round renews the same one.
-/

namespace PyMotor.Common

open StandbyManager

def StandbyMove.isRenew : StandbyMove → Bool
  | .renew _ => true
  | _ => false

/-- The last three calls were for this lease, and failed. -/
def FailedThrice (lease : LeaseId) (calls : List (LeaseId × KeepAlive)) : Prop :=
  ∃ a b c rest, calls = (lease, a) :: (lease, b) :: (lease, c) :: rest ∧
    a ≠ .renewed ∧ b ≠ .renewed ∧ c ≠ .renewed

/-- A master whose lease has not expired becomes standby only after three calls for that lease failed. -/
def StepsDownAfterThree (_ : List StandbyMove) (s : StandbyManager) (m : StandbyMove) : Prop :=
  ∀ s' lease, s.exec m = some s' → s.currentRole = .master → s'.currentRole = .standby →
    s'.phase ≠ .stopped → s'.etcd.lockLease = some lease → lease ∉ s'.etcd.expired →
    FailedThrice lease s'.etcd.calls

/-- From here on the pod stays master, and its next call renews this lease, until the loop is stopped. -/
def RenewsNext (lease : LeaseId) (s : StandbyManager) : Prop :=
  ∀ ms s', Run exec Free s ms s' → (∀ m ∈ ms, m.isRenew = false) → s'.phase ≠ .stopped →
    s'.currentRole = .master ∧ ∀ answer s'', s'.exec (.renew answer) = some s'' →
      ∃ a, s''.etcd.calls = (lease, a) :: s.etcd.calls

/-- A call that succeeds keeps the pod master, and the next round renews the same lease. -/
def SuccessKeeps (_ : List StandbyMove) (s : StandbyManager) (m : StandbyMove) : Prop :=
  ∀ s', m = .renew (some .renewed) → s.exec m = some s' →
    ∃ lease, s'.etcd.calls = (lease, .renewed) :: s.etcd.calls ∧ RenewsNext lease s'

/-- When the first call of a round failed, the lease has expired by the last attempt. -/
def ExpiresOnceFailed (_ : List StandbyMove) (s : StandbyManager) (m : StandbyMove) : Prop :=
  s.phase = .renewing maxRetries → m.isRenew = true → ∀ lease ∈ s.etcd.lockLease, lease ∈ s.etcd.expired

instance (ms : List StandbyMove) (s : StandbyManager) (m : StandbyMove) :
    Decidable (ExpiresOnceFailed ms s m) :=
  inferInstanceAs (Decidable (_ → _ → ∀ _ ∈ s.etcd.lockLease, _))

/-! ## What is on record -/

/-- All calls for the lease succeeded. -/
def AllRenewed (lease : LeaseId) (calls : List (LeaseId × KeepAlive)) : Prop :=
  ∀ call ∈ calls, call.1 = lease → call.2 = .renewed

/-- What a master has on record: its lease, until a call fails. -/
def OnRecord (s : StandbyManager) (lease : LeaseId) : LoopPhase → Prop
  | .head => s.lease = some lease ∧ AllRenewed lease s.etcd.calls
  | .renewing 0 => s.lease = some lease ∧ AllRenewed lease s.etcd.calls
  | .renewing (_ + 1) => s.lease = none ∧ ∃ a rest, s.etcd.calls = (lease, a) :: rest ∧
      a ≠ .renewed ∧ AllRenewed lease rest
  | .acquiring => False
  | .stopped => False

/-- What holds in every state of the loop. -/
structure Tracked (s : StandbyManager) : Prop where
  called : ∀ call ∈ s.etcd.calls, call.1 < s.etcd.granted
  locked : ∀ lease ∈ s.etcd.lockLease, lease < s.etcd.granted
  master : s.currentRole = .master → ∃ lease, s.etcd.lockLease = some lease ∧ OnRecord s lease s.phase
  renewing : ∀ attempt, s.phase = .renewing attempt → s.currentRole = .master ∧ attempt ≤ maxRetries

variable {s s' : StandbyManager} {m : StandbyMove} {ms : List StandbyMove} {answer : Option KeepAlive}

/-- What an attempt comes to: a call that succeeds, one that fails, or none. -/
theorem renew_cases (h : s.renew answer = some s') :
    ∃ attempt, s.phase = .renewing attempt ∧
      ((∃ lease, s.lease = some lease ∧ answer = some .renewed ∧
          s' = ({ s with etcd := { s.etcd with calls := (lease, .renewed) :: s.etcd.calls } }).goto
            .head) ∨
        (∃ lease a, s.lease = some lease ∧ answer = some a ∧ a ≠ .renewed ∧
          s' = ({ s with
            client := s.client.forget s.config.masterLockKey
            etcd := { s.etcd with calls := (lease, a) :: s.etcd.calls } }).renewFailed attempt) ∨
        s.lease = none ∧ answer = none ∧ s' = s.renewFailed attempt) := by
  unfold renew at h
  cases hphase : s.phase with
  | renewing attempt =>
    refine ⟨attempt, rfl, ?_⟩
    rw [hphase] at h
    cases hlease : s.lease with
    | none =>
      rw [hlease] at h
      cases answer with
      | none =>
        cases h
        exact Or.inr (Or.inr ⟨rfl, rfl, rfl⟩)
      | some a => cases h
    | some lease =>
      rw [hlease] at h
      cases answer with
      | none => cases h
      | some a =>
        simp only at h
        split at h
        · rcases s.client.renewLease_spec s.config.masterLockKey hlease a with
            ⟨rfl, hspec⟩ | ⟨hfailed, hspec⟩
          · simp only [keepAlive, hspec] at h
            cases h
            exact Or.inl ⟨lease, rfl, rfl, rfl⟩
          · simp only [keepAlive, hspec] at h
            cases h
            exact Or.inr (Or.inl ⟨lease, a, rfl, rfl, hfailed, rfl⟩)
        · cases h
  | head =>
    rw [hphase] at h
    cases h
  | acquiring =>
    rw [hphase] at h
    cases h
  | stopped =>
    rw [hphase] at h
    cases h

theorem loopHead_cases (h : s.loopHead = some s') :
    s.phase = .head ∧
      (s.stopEvent = true ∧ s' = s.leaveLoop ∨
        s.currentRole = .master ∧ s' = s.goto (.renewing 0) ∨
        s.currentRole = .standby ∧ s' = s.goto .acquiring) := by
  unfold loopHead at h
  split at h
  · cases h
  · next hphase =>
    refine ⟨not_not.mp hphase, ?_⟩
    split at h
    · next hstop =>
      cases h
      exact Or.inl ⟨hstop, rfl⟩
    · cases hrole : s.currentRole with
      | master =>
        rw [hrole] at h
        cases h
        exact Or.inr (Or.inl ⟨rfl, rfl⟩)
      | standby =>
        rw [hrole] at h
        cases h
        exact Or.inr (Or.inr ⟨rfl, rfl⟩)

theorem tryBecomeMaster_cases {granted raises : Bool} (h : s.tryBecomeMaster granted raises = some s') :
    s.phase = .acquiring ∧
      (s' = { s.goto .head with hasSetRole := true } ∨
        s' = { (s.setRole .standby).goto .head with hasSetRole := true } ∨
        ∃ client, client.leaseOf s.config.masterLockKey = some s.etcd.granted ∧
          s' = { (s.setRole .master).goto .head with
            client := client
            hasSetRole := s.hasSetRole || !raises
            etcd := { s.etcd with
              granted := s.etcd.granted + 1
              lockLease := some s.etcd.granted } }) := by
  unfold tryBecomeMaster at h
  split at h
  · cases h
  · next hphase =>
    refine ⟨not_not.mp hphase, ?_⟩
    split at h
    · cases h
      exact Or.inl rfl
    · cases hacquired : (s.client.acquireLock s.config.masterLockKey
          (if granted then some s.etcd.granted else none)).1 with
      | none =>
        simp only [hacquired] at h
        cases h
        exact Or.inr (Or.inl rfl)
      | some lease =>
        simp only [hacquired] at h
        cases h
        obtain ⟨hgranted, hrecord⟩ := EtcdClient.acquireLock_spec _ _ hacquired
        split at hgranted
        · cases hgranted
          exact Or.inr (Or.inr ⟨_, hrecord, rfl⟩)
        · cases hgranted

/-! ## What every step keeps -/

theorem renewFailed_cases (s : StandbyManager) (attempt : ℕ) :
    attempt < maxRetries ∧ s.renewFailed attempt = s.goto (.renewing (attempt + 1)) ∨
      maxRetries ≤ attempt ∧ s.renewFailed attempt = (s.setRole .standby).goto .head := by
  unfold renewFailed
  by_cases hmore : attempt < maxRetries
  · exact Or.inl ⟨hmore, if_pos hmore⟩
  · exact Or.inr ⟨Nat.le_of_not_lt hmore, if_neg hmore⟩

theorem leaveLoop_spec (s : StandbyManager) :
    s.leaveLoop.phase = .stopped ∧ s.leaveLoop.currentRole = .standby ∧ s.leaveLoop.etcd = s.etcd := by
  unfold leaveLoop
  cases hrole : s.currentRole with
  | standby => exact ⟨rfl, hrole, rfl⟩
  | master => exact ⟨rfl, rfl, rfl⟩

theorem Tracked.firstAttempt (h : Tracked s) {attempt : ℕ} {lease : LeaseId}
    (hphase : s.phase = .renewing attempt) (hlease : s.lease = some lease) :
    attempt = 0 ∧ s.etcd.lockLease = some lease ∧ AllRenewed lease s.etcd.calls := by
  obtain ⟨held, hlock, hrecord⟩ := h.master (h.renewing attempt hphase).1
  rw [hphase] at hrecord
  cases attempt with
  | zero =>
    obtain ⟨hheld, hrenewed⟩ := hrecord
    rw [hlease] at hheld
    cases hheld
    exact ⟨rfl, hlock, hrenewed⟩
  | succ attempt =>
    have hnone := hrecord.1
    rw [hlease] at hnone
    cases hnone

theorem Tracked.laterAttempt (h : Tracked s) {attempt : ℕ} (hphase : s.phase = .renewing attempt)
    (hlease : s.lease = none) :
    ∃ lease a rest, s.etcd.lockLease = some lease ∧ s.etcd.calls = (lease, a) :: rest ∧
      a ≠ .renewed ∧ AllRenewed lease rest := by
  obtain ⟨held, hlock, hrecord⟩ := h.master (h.renewing attempt hphase).1
  rw [hphase] at hrecord
  cases attempt with
  | zero =>
    have hheld := hrecord.1
    rw [hlease] at hheld
    cases hheld
  | succ attempt =>
    obtain ⟨-, a, rest, hcalls, hfailed, hrest⟩ := hrecord
    exact ⟨held, a, rest, hlock, hcalls, hfailed, hrest⟩

theorem called_cons {calls : List (LeaseId × KeepAlive)} {granted : ℕ} {lease : LeaseId} {a : KeepAlive}
    (h : ∀ call ∈ calls, call.1 < granted) (hlease : lease < granted) :
    ∀ call ∈ (lease, a) :: calls, call.1 < granted := by
  intro call hcall
  rcases List.mem_cons.mp hcall with rfl | hcall
  · exact hlease
  · exact h call hcall

theorem renew_tracked (h : Tracked s) (hexec : s.renew answer = some s') : Tracked s' := by
  obtain ⟨attempt, hphase, ⟨lease, hlease, -, rfl⟩ | ⟨lease, a, hlease, -, hfailed, rfl⟩ |
    ⟨hlease, -, rfl⟩⟩ := renew_cases hexec
  · obtain ⟨-, hlock, hrenewed⟩ := h.firstAttempt hphase hlease
    refine ⟨called_cons h.called (h.locked lease hlock), h.locked,
      fun _ => ⟨lease, hlock, hlease, ?_⟩, fun _ hhead => (nomatch hhead)⟩
    intro call hcall hof
    rcases List.mem_cons.mp hcall with rfl | hcall
    · rfl
    · exact hrenewed call hcall hof
  · obtain ⟨rfl, hlock, hrenewed⟩ := h.firstAttempt hphase hlease
    have hmaster := (h.renewing 0 hphase).1
    refine ⟨called_cons h.called (h.locked lease hlock), h.locked,
      fun _ => ⟨lease, hlock, EtcdClient.leaseOf_forget _ _, a, _, rfl, hfailed, hrenewed⟩,
      fun attempt hnext => ⟨hmaster, ?_⟩⟩
    cases hnext
    decide
  · obtain ⟨lease, a, rest, hlock, hcalls, hfailed, hrest⟩ := h.laterAttempt hphase hlease
    rcases renewFailed_cases s attempt with ⟨hmore, heq⟩ | ⟨-, heq⟩
    · rw [heq]
      refine ⟨h.called, h.locked, fun _ => ⟨lease, hlock, hlease, a, rest, hcalls, hfailed, hrest⟩,
        fun attempt' hnext => ⟨(h.renewing attempt hphase).1, ?_⟩⟩
      cases hnext
      exact hmore
    · rw [heq]
      exact ⟨h.called, h.locked, fun hmaster => (nomatch hmaster), fun _ hhead => (nomatch hhead)⟩

theorem exec_tracked (h : Tracked s) (hexec : s.exec m = some s') : Tracked s' := by
  cases m with
  | loopHead =>
    obtain ⟨hhead, ⟨-, rfl⟩ | ⟨hmaster, rfl⟩ | ⟨hstandby, rfl⟩⟩ := loopHead_cases hexec
    · obtain ⟨hphase, hrole, hetcd⟩ := leaveLoop_spec s
      refine ⟨hetcd ▸ h.called, hetcd ▸ h.locked, fun hmaster => ?_, fun attempt hnext => ?_⟩
      · rw [hrole] at hmaster
        cases hmaster
      · rw [hphase] at hnext
        cases hnext
    · obtain ⟨lease, hlock, hrecord⟩ := h.master hmaster
      rw [hhead] at hrecord
      refine ⟨h.called, h.locked, fun _ => ⟨lease, hlock, hrecord⟩, fun attempt hnext => ?_⟩
      cases hnext
      exact ⟨hmaster, Nat.zero_le _⟩
    · refine ⟨h.called, h.locked, fun hmaster => ?_, fun _ hnext => (nomatch hnext)⟩
      rw [show s.currentRole = .master from hmaster] at hstandby
      cases hstandby
  | renew answer => exact renew_tracked h hexec
  | tryBecomeMaster granted raises =>
    obtain ⟨hphase, rfl | rfl | ⟨client, hrecord, rfl⟩⟩ := tryBecomeMaster_cases hexec
    · refine ⟨h.called, h.locked, fun hmaster => ?_, fun _ hhead => (nomatch hhead)⟩
      obtain ⟨lease, -, hnever⟩ := h.master hmaster
      rw [hphase] at hnever
      exact hnever.elim
    · exact ⟨h.called, h.locked, fun hmaster => (nomatch hmaster), fun _ hhead => (nomatch hhead)⟩
    · refine ⟨fun call hcall => Nat.lt_succ_of_lt (h.called call hcall), fun lease hlease => ?_,
        fun _ => ⟨_, rfl, hrecord, fun call hcall hof => ?_⟩, fun _ hhead => (nomatch hhead)⟩
      · cases hlease
        exact Nat.lt_succ_self _
      · -- no call was made yet for a lease that is new
        exact absurd (h.called call hcall) (hof ▸ Nat.lt_irrefl _)
  | leaseExpires lease =>
    simp only [exec] at hexec
    split at hexec
    · cases hexec
      exact ⟨h.called, h.locked, h.master, h.renewing⟩
    · cases hexec
  | stop =>
    cases hexec
    exact ⟨h.called, h.locked, h.master, h.renewing⟩

variable {config : StandbyConfig} {podNamespace jobName : String}

theorem tracked_of_run (h : Run exec Free (.new config podNamespace jobName) ms s) : Tracked s :=
  h.invariant_state (I := Tracked)
    ⟨fun _ hcall => (nomatch hcall), fun _ hlease => (nomatch hlease), fun hmaster => (nomatch hmaster),
      fun _ hnext => (nomatch hnext)⟩
    fun hI _ hexec => exec_tracked hI hexec

/-! ## What becomes of a master -/

theorem stepsDownAfterThree_iff (h : Tracked s) (hexec : s.exec m = some s') :
    StepsDownAfterThree ms s m ↔ ExpiresOnceFailed ms s m := by
  constructor
  · intro hdown hphase hrenew lease hlease
    obtain ⟨answer, rfl⟩ : ∃ answer, m = .renew answer := by
      cases m with
      | renew answer => exact ⟨answer, rfl⟩
      | loopHead => cases hrenew
      | tryBecomeMaster granted raises => cases hrenew
      | leaseExpires lease => cases hrenew
      | stop => cases hrenew
    obtain ⟨attempt, hattempt, ⟨held, hheld, -, -⟩ | ⟨held, a, hheld, -, -, -⟩ | ⟨hnone, -, rfl⟩⟩ :=
      renew_cases hexec
    · cases (h.firstAttempt hattempt hheld).1
      rw [hphase] at hattempt
      cases hattempt
    · cases (h.firstAttempt hattempt hheld).1
      rw [hphase] at hattempt
      cases hattempt
    · rw [hphase] at hattempt
      cases hattempt
      obtain ⟨held, a, rest, hlock, hcalls, -, hrest⟩ := h.laterAttempt hphase hnone
      cases hlock.symm.trans hlease
      by_contra hgood
      -- of the calls for the lease only the last one failed
      obtain ⟨_, b, _, _, hthree, -, hfailed, -⟩ := hdown _ lease hexec (h.renewing _ hphase).1 rfl
        (fun hstop => (nomatch hstop)) hlock hgood
      cases hcalls.symm.trans hthree
      exact hfailed (hrest _ List.mem_cons_self rfl)
  · intro hexpires t lease ht hmaster hstandby hstop hlock hgood
    exfalso
    cases m with
    | loopHead =>
      obtain ⟨-, ⟨-, rfl⟩ | ⟨-, rfl⟩ | ⟨hrole, rfl⟩⟩ := loopHead_cases ht
      · exact hstop (leaveLoop_spec s).1
      · cases hmaster.symm.trans hstandby
      · cases hmaster.symm.trans hrole
    | renew answer =>
      obtain ⟨attempt, hphase, ⟨held, -, -, rfl⟩ | ⟨held, a, hheld, -, -, rfl⟩ | ⟨-, -, rfl⟩⟩ :=
        renew_cases ht
      · cases hmaster.symm.trans hstandby
      · cases (h.firstAttempt hphase hheld).1
        cases hmaster.symm.trans hstandby
      · rcases renewFailed_cases s attempt with ⟨-, heq⟩ | ⟨hlast, heq⟩
        · rw [heq] at hstandby
          cases hmaster.symm.trans hstandby
        · rw [heq] at hlock hgood
          have hattempt : attempt = maxRetries :=
            Nat.le_antisymm (h.renewing attempt hphase).2 hlast
          exact hgood (hexpires (hattempt ▸ hphase) rfl lease hlock)
    | tryBecomeMaster granted raises =>
      obtain ⟨held, -, hnever⟩ := h.master hmaster
      rw [(tryBecomeMaster_cases ht).1] at hnever
      exact hnever
    | leaseExpires lease =>
      simp only [exec] at ht
      split at ht
      · cases ht
        cases hmaster.symm.trans hstandby
      · cases ht
    | stop =>
      cases ht
      cases hmaster.symm.trans hstandby

/-- The loop is over, or the lease is on record and no call was made since. -/
def KeepsLease (lease : LeaseId) (calls : List (LeaseId × KeepAlive)) (s : StandbyManager) : Prop :=
  s.phase = .stopped ∨
    s.currentRole = .master ∧ s.lease = some lease ∧ (s.phase = .head ∨ s.phase = .renewing 0) ∧
      s.etcd.calls = calls

theorem exec_keepsLease {lease : LeaseId} {calls : List (LeaseId × KeepAlive)}
    (h : KeepsLease lease calls s) (hquiet : m.isRenew = false) (hexec : s.exec m = some s') :
    KeepsLease lease calls s' := by
  cases m with
  | loopHead =>
    obtain ⟨hhead, ⟨-, rfl⟩ | ⟨-, rfl⟩ | ⟨hrole, rfl⟩⟩ := loopHead_cases hexec
    · exact Or.inl (leaveLoop_spec s).1
    · rcases h with hstopped | ⟨hmaster, hlease, -, hcalls⟩
      · rw [hhead] at hstopped
        cases hstopped
      · exact Or.inr ⟨hmaster, hlease, Or.inr rfl, hcalls⟩
    · rcases h with hstopped | ⟨hmaster, -, -, -⟩
      · rw [hhead] at hstopped
        cases hstopped
      · cases hmaster.symm.trans hrole
  | renew answer => cases hquiet
  | tryBecomeMaster granted raises =>
    have hphase := (tryBecomeMaster_cases hexec).1
    rcases h with hstopped | ⟨-, -, hhead | hrenewing, -⟩
    · rw [hphase] at hstopped
      cases hstopped
    · rw [hphase] at hhead
      cases hhead
    · rw [hphase] at hrenewing
      cases hrenewing
  | leaseExpires lease =>
    simp only [exec] at hexec
    split at hexec
    · cases hexec
      exact h
    · cases hexec
  | stop =>
    cases hexec
    exact h

theorem renewsNext_of_keepsLease {lease : LeaseId} (h : KeepsLease lease s.etcd.calls s) :
    RenewsNext lease s := by
  intro ms s' hrun hquiet hopen
  have hkept := hrun.invariant (I := fun (ms : List StandbyMove) t => (∀ m ∈ ms, m.isRenew = false) →
    KeepsLease lease s.etcd.calls t) (fun _ => h) fun hI _ he hquiet =>
      exec_keepsLease (hI fun m hm => hquiet m (List.mem_append_left _ hm))
        (hquiet _ (List.mem_append_right _ (List.mem_singleton_self _))) he
  rcases hkept hquiet with hstopped | ⟨hmaster, hlease, -, hcalls⟩
  · exact absurd hstopped hopen
  · refine ⟨hmaster, fun answer s'' hexec => ?_⟩
    obtain ⟨attempt, -, ⟨held, hheld, -, rfl⟩ | ⟨held, a, hheld, -, -, rfl⟩ | ⟨hnone, -, rfl⟩⟩ :=
      renew_cases hexec
    · cases hlease.symm.trans hheld
      exact ⟨_, congrArg _ hcalls⟩
    · cases hlease.symm.trans hheld
      refine ⟨a, ?_⟩
      rcases renewFailed_cases _ attempt with ⟨-, heq⟩ | ⟨-, heq⟩
      · rw [heq]
        exact congrArg _ hcalls
      · rw [heq]
        exact congrArg _ hcalls
    · cases hlease.symm.trans hnone

theorem successKeeps (h : Tracked s) : SuccessKeeps ms s m := by
  rintro s' rfl hexec
  obtain ⟨attempt, hphase, ⟨lease, hlease, -, rfl⟩ | ⟨lease, a, -, hanswer, hfailed, -⟩ |
    ⟨-, hanswer, -⟩⟩ := renew_cases hexec
  · refine ⟨lease, rfl, renewsNext_of_keepsLease (Or.inr ⟨?_, hlease, Or.inl rfl, rfl⟩)⟩
    exact (h.renewing attempt hphase).1
  · cases hanswer
    exact absurd rfl hfailed
  · cases hanswer

/-- **A master survives failures of its calls** exactly if, whenever a call failed, its lease has expired by
the last attempt of the round: only then does it keep its role over a lease that is good until three calls
failed. A call that succeeds keeps the role and the lease in any case. -/
theorem master_survives_iff (h : Run exec Free (.new config podNamespace jobName) ms s) :
    (EachStep exec (.new config podNamespace jobName) StepsDownAfterThree ms ↔
        EachStep exec (.new config podNamespace jobName) ExpiresOnceFailed ms) ∧
      EachStep exec (.new config podNamespace jobName) SuccessKeeps ms :=
  ⟨h.eachStep_congr fun hrun hexec => stepsDownAfterThree_iff (tracked_of_run hrun) hexec,
    h.eachStep_of_step fun hrun _ => successKeeps (tracked_of_run hrun)⟩

def defaultConfig : StandbyConfig := ⟨"/controller/master_lock", 3⟩

/-- The pod becomes master. -/
def becomeMaster : List StandbyMove := [.loopHead, .tryBecomeMaster true false]

/-- A lease that was renewed and then expires: the next round finds that out, and the pod steps down. -/
theorem expiredLease_stepsDown :
    ∃ s, Run exec Free (.new defaultConfig "ns" "job") (becomeMaster ++
        [.loopHead, .renew (some .renewed), .leaseExpires 0, .loopHead, .renew (some .expired), .renew none,
          .renew none]) s ∧ s.currentRole = .standby ∧
      EachStep exec (.new defaultConfig "ns" "job") StepsDownAfterThree (becomeMaster ++
        [.loopHead, .renew (some .renewed), .leaseExpires 0, .loopHead, .renew (some .expired), .renew none,
          .renew none]) := by
  obtain ⟨s, hrun, hrole⟩ : ∃ s, Run exec (ExpiresOnceFailed []) (.new defaultConfig "ns" "job")
      (becomeMaster ++ [.loopHead, .renew (some .renewed), .leaseExpires 0, .loopHead,
        .renew (some .expired), .renew none, .renew none]) s ∧ currentRole s = .standby :=
    runList_exists (by decide +kernel)
  exact ⟨s, hrun.free, hrole, (master_survives_iff hrun.free).1.mpr hrun.eachStep⟩

/-- A single call that fails, and the pod steps down although its lease is good. -/
theorem oneError_stepsDown :
    ∃ s s', Run exec Free (.new defaultConfig "ns" "job") (becomeMaster ++
        [.loopHead, .renew (some .error), .renew none]) s ∧
      Run exec Free s [.renew none] s' ∧ s.currentRole = .master ∧
      (s'.currentRole, s'.phase, s'.etcd) = (.standby, .head, ⟨1, some 0, [], [(0, .error)]⟩) :=
  runList_runs (f := currentRole) (g := fun s => (s.currentRole, s.phase, s.etcd)) (by decide +kernel) (by decide +kernel)

end PyMotor.Common
