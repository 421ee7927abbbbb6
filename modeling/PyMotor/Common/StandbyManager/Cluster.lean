import PyMotor.Common.StandbyManager.Renewal

/-!
# One master under a live lease

The pods of a component share one key in ETCD (`common/etcd/locks.py`). A pod that wants the lock gets a lease
first and puts the key under it in a transaction that goes through only if the key is not there
(`Lock.acquire`). The key goes with its lease: the lease expires, or the pod revokes it when its loop ends.

The answer to a transaction may be lost. The pod then takes the lock for refused, and the transaction may be
carried out all the same, at once or later. The key is under a lease then that no pod knows of, and nobody is
master until it expires.

In every interleaving the key is that of the master whose lease is alive, so there is one such master at
most, and a master whose lease has expired steps down in the next round of renewals (`one_live_master`).
-/

namespace PyMotor.Common

open StandbyManager

/-- Who put the key. -/
inductive LockHolder (P : Type) where
  /-- A pod, under a lease that its client has on record. -/
  | pod (p : P) (lease : LeaseId)
  /-- A pod that did not get the answer. -/
  | orphan
  deriving DecidableEq

structure Cluster (P : Type) where
  pods : P → StandbyManager
  holder : Option (LockHolder P)
  /-- How many transactions are on their way whose answers are lost. -/
  lostTxns : ℕ

inductive ClusterMove (P : Type) where
  | pod (p : P) (m : StandbyMove)
  /-- A pod asks for the lock, and does not get the answer. -/
  | loseAnswer (p : P)
  /-- Such a transaction is carried out. -/
  | txnArrives
  | orphanExpires
  deriving DecidableEq

/-- In the next move ETCD is asked for the lock. -/
def StandbyManager.Asks (s : StandbyManager) : Prop :=
  s.phase = .acquiring ∧ 0 < s.config.masterLockMaxFailures ∧ s.stopEvent = false ∧ s.lease = none

instance (s : StandbyManager) : Decidable s.Asks := inferInstanceAs (Decidable (_ ∧ _))

/-- A master whose lease has not expired. -/
def StandbyManager.LiveMaster (s : StandbyManager) : Prop :=
  s.currentRole = .master ∧ ∃ lease ∈ s.etcd.lockLease, lease ∉ s.etcd.expired

namespace Cluster

variable {P : Type} [DecidableEq P]

def start (config : StandbyConfig) (podNamespace jobName : String) : Cluster P :=
  ⟨fun _ => .new config podNamespace jobName, none, 0⟩

def setPod (c : Cluster P) (p : P) (s : StandbyManager) : Cluster P :=
  { c with pods := Function.update c.pods p s }

variable (c : Cluster P)

/-- The transaction goes through only if the key is not there. -/
def acquire (p : P) (raises : Bool) : Option (Cluster P) :=
  if c.holder = none ∧ (c.pods p).Asks then
    ((c.pods p).exec (.tryBecomeMaster true raises)).map fun s =>
      { c.setPod p s with holder := some (.pod p (c.pods p).etcd.granted) }
  else none

/-- The key goes with its lease. A lease that is revoked is taken for one that expires. -/
def leaseExpires (p : P) (lease : LeaseId) : Option (Cluster P) :=
  ((c.pods p).exec (.leaseExpires lease)).map fun s =>
    { c.setPod p s with holder := if c.holder = some (.pod p lease) then none else c.holder }

def exec : ClusterMove P → Option (Cluster P)
  | .pod p (.tryBecomeMaster true raises) => c.acquire p raises
  | .pod p (.tryBecomeMaster false raises) =>
    ((c.pods p).exec (.tryBecomeMaster false raises)).map (c.setPod p)
  | .pod p (.leaseExpires lease) => c.leaseExpires p lease
  | .pod p .loopHead => ((c.pods p).exec .loopHead).map (c.setPod p)
  | .pod p (.renew answer) => ((c.pods p).exec (.renew answer)).map (c.setPod p)
  | .pod p .stop => ((c.pods p).exec .stop).map (c.setPod p)
  | .loseAnswer p =>
    if (c.pods p).Asks then
      ((c.pods p).exec (.tryBecomeMaster false false)).map fun s =>
        { c.setPod p s with lostTxns := c.lostTxns + 1 }
    else none
  | .txnArrives =>
    if 0 < c.lostTxns then
      some { c with
        holder := if c.holder = none then some .orphan else c.holder
        lostTxns := c.lostTxns - 1 }
    else none
  | .orphanExpires => if c.holder = some .orphan then some { c with holder := none } else none

end Cluster

/-- What a move is for a pod. -/
def ClusterMove.ofPod {P : Type} [DecidableEq P] (p : P) : ClusterMove P → Option StandbyMove
  | .pod q m => if q = p then some m else none
  | .loseAnswer q => if q = p then some (.tryBecomeMaster false false) else none
  | .txnArrives => none
  | .orphanExpires => none

namespace Cluster

variable {P : Type} [DecidableEq P] {c c' : Cluster P} {p q : P} {move : ClusterMove P}

/-! ## What a move does -/

/-- Of what a pod does, ETCD keeps who has the key. -/
inductive KeyChange (c : Cluster P) : ClusterMove P → Option (LockHolder P) → Prop where
  | kept {p : P} {m : StandbyMove} (hlease : ∀ lease, m ≠ .leaseExpires lease)
      (hgranted : ∀ raises, m ≠ .tryBecomeMaster true raises) : KeyChange c (.pod p m) c.holder
  | acquired {p : P} {raises : Bool} (hfree : c.holder = none) :
      KeyChange c (.pod p (.tryBecomeMaster true raises)) (some (.pod p (c.pods p).etcd.granted))
  | expired {p : P} {lease : LeaseId} : KeyChange c (.pod p (.leaseExpires lease))
      (if c.holder = some (.pod p lease) then none else c.holder)
  | lost {p : P} : KeyChange c (.loseAnswer p) c.holder
  | arrived : KeyChange c .txnArrives (if c.holder = none then some .orphan else c.holder)
  | orphan (horphan : c.holder = some .orphan) : KeyChange c .orphanExpires none

/-- A pod makes the move, or none. -/
def Follows (s s' : StandbyManager) : Option StandbyMove → Prop
  | some m => s.exec m = some s'
  | none => s' = s

theorem follows_setPod {m : StandbyMove} {s : StandbyManager} (hs : (c.pods p).exec m = some s) (q : P) :
    Follows (c.pods q) ((c.setPod p s).pods q) (if p = q then some m else none) := by
  show Follows (c.pods q) (Function.update c.pods p s q) _
  by_cases hpq : p = q
  · subst hpq
    rw [if_pos rfl, Function.update_self]
    exact hs
  · rw [if_neg hpq, Function.update_of_ne (Ne.symm hpq)]
    rfl

/-- **What a move does**: one pod makes its move, if any, and the key changes. -/
theorem exec_cases (h : c.exec move = some c') : KeyChange c move c'.holder ∧
    ∀ p, Follows (c.pods p) (c'.pods p) (move.ofPod p) := by
  cases move with
  | pod p m =>
    cases m with
    | tryBecomeMaster granted raises =>
      cases granted with
      | true =>
        simp only [exec, acquire] at h
        split at h
        · next hask =>
          obtain ⟨s, hs, rfl⟩ := Option.map_eq_some_iff.mp h
          exact ⟨.acquired hask.1, follows_setPod hs⟩
        · cases h
      | false =>
        obtain ⟨s, hs, rfl⟩ := Option.map_eq_some_iff.mp h
        exact ⟨.kept (fun _ h => nomatch h) (fun _ h => nomatch h), follows_setPod hs⟩
    | leaseExpires lease =>
      obtain ⟨s, hs, rfl⟩ := Option.map_eq_some_iff.mp h
      exact ⟨.expired, follows_setPod hs⟩
    | loopHead =>
      obtain ⟨s, hs, rfl⟩ := Option.map_eq_some_iff.mp h
      exact ⟨.kept (fun _ h => nomatch h) (fun _ h => nomatch h), follows_setPod hs⟩
    | renew answer =>
      obtain ⟨s, hs, rfl⟩ := Option.map_eq_some_iff.mp h
      exact ⟨.kept (fun _ h => nomatch h) (fun _ h => nomatch h), follows_setPod hs⟩
    | stop =>
      simp only [exec] at h
      obtain ⟨s, hs, rfl⟩ := Option.map_eq_some_iff.mp h
      exact ⟨.kept (fun _ h => nomatch h) (fun _ h => nomatch h), follows_setPod hs⟩
  | loseAnswer p =>
    simp only [exec] at h
    split at h
    · obtain ⟨s, hs, rfl⟩ := Option.map_eq_some_iff.mp h
      exact ⟨.lost, follows_setPod hs⟩
    · cases h
  | txnArrives =>
    simp only [exec] at h
    split at h
    · cases h
      exact ⟨.arrived, fun _ => rfl⟩
    · cases h
  | orphanExpires =>
    simp only [exec] at h
    split at h
    · next horphan =>
      cases h
      exact ⟨.orphan horphan, fun _ => rfl⟩
    · cases h

/-- **Each pod runs its own loop**: what it does in a run of the cluster is a run of the pod. -/
theorem run_pod {moves : List (ClusterMove P)} (h : Run exec Free c moves c') (p : P) :
    Run StandbyManager.exec Free (c.pods p) (moves.filterMap (·.ofPod p)) (c'.pods p) := by
  induction h with
  | nil => exact .nil
  | @snoc moves d move d' _ _ hexec ih =>
    have hfollows := (exec_cases hexec).2 p
    rw [List.filterMap_append, List.filterMap_cons, List.filterMap_nil]
    cases hmove : move.ofPod p with
    | none =>
      rw [hmove] at hfollows
      have hsame : d'.pods p = d.pods p := hfollows
      rw [hsame, List.append_nil]
      exact ih
    | some m =>
      rw [hmove] at hfollows
      exact ih.snoc trivial hfollows

/-! ## Who is master -/

variable {s s' : StandbyManager} {m : StandbyMove}

/-- What a move may do to a pod that does not get the lock. -/
structure KeepsMastership (s s' : StandbyManager) : Prop where
  granted : s'.etcd.granted = s.etcd.granted
  lockLease : s'.etcd.lockLease = s.etcd.lockLease
  expired : ∀ lease ∈ s.etcd.expired, lease ∈ s'.etcd.expired
  role : s'.currentRole = .master → s.currentRole = .master

theorem keepsMastership_renewFailed (s : StandbyManager) (attempt : ℕ) :
    KeepsMastership s (s.renewFailed attempt) := by
  rcases renewFailed_cases s attempt with ⟨-, heq⟩ | ⟨-, heq⟩
  · rw [heq]
    exact ⟨rfl, rfl, fun _ h => h, fun h => h⟩
  · rw [heq]
    exact ⟨rfl, rfl, fun _ h => h, fun h => nomatch h⟩

theorem keepsMastership_refused {raises : Bool} (hexec : s.exec (.tryBecomeMaster false raises) = some s') :
    KeepsMastership s s' := by
  have hnone : (s.client.acquireLock s.config.masterLockKey
      (if false then some s.etcd.granted else none)).1 = none := by
    unfold EtcdClient.acquireLock
    split <;> rfl
  change s.tryBecomeMaster false raises = some s' at hexec
  unfold tryBecomeMaster at hexec
  split at hexec
  · cases hexec
  · split at hexec
    · cases hexec
      exact ⟨rfl, rfl, fun _ h => h, fun h => h⟩
    · simp only [hnone] at hexec
      cases hexec
      refine ⟨rfl, rfl, fun _ h => h, fun h => ?_⟩
      cases h

/-- A pod gets the lock when ETCD gives it, and never otherwise. -/
theorem mastership_cases (hexec : s.exec m = some s') : KeepsMastership s s' ∨
    ∃ raises, m = .tryBecomeMaster true raises ∧ s'.etcd.granted = s.etcd.granted + 1 ∧
      s'.etcd.lockLease = some s.etcd.granted ∧ s'.etcd.expired = s.etcd.expired := by
  cases m with
  | loopHead =>
    obtain ⟨-, ⟨-, rfl⟩ | ⟨-, rfl⟩ | ⟨-, rfl⟩⟩ := loopHead_cases hexec
    · obtain ⟨-, hrole, hetcd⟩ := leaveLoop_spec s
      refine Or.inl ⟨by rw [hetcd], by rw [hetcd], by rw [hetcd]; exact fun _ h => h, fun hmaster => ?_⟩
      cases hrole.symm.trans hmaster
    · exact Or.inl ⟨rfl, rfl, fun _ h => h, fun h => h⟩
    · exact Or.inl ⟨rfl, rfl, fun _ h => h, fun h => h⟩
  | renew answer =>
    obtain ⟨attempt, -, ⟨lease, -, -, rfl⟩ | ⟨lease, a, -, -, -, rfl⟩ | ⟨-, -, rfl⟩⟩ := renew_cases hexec
    · exact Or.inl ⟨rfl, rfl, fun _ h => h, fun h => h⟩
    · obtain ⟨hgranted, hlease, hexpired, hrole⟩ := keepsMastership_renewFailed ({ s with
        client := s.client.forget s.config.masterLockKey
        etcd := { s.etcd with calls := (lease, a) :: s.etcd.calls } }) attempt
      exact Or.inl ⟨hgranted, hlease, hexpired, hrole⟩
    · exact Or.inl (keepsMastership_renewFailed s attempt)
  | tryBecomeMaster granted raises =>
    cases granted with
    | false => exact Or.inl (keepsMastership_refused hexec)
    | true =>
      obtain ⟨-, rfl | rfl | ⟨client, -, rfl⟩⟩ := tryBecomeMaster_cases hexec
      · exact Or.inl ⟨rfl, rfl, fun _ h => h, fun h => h⟩
      · exact Or.inl ⟨rfl, rfl, fun _ h => h, fun h => nomatch h⟩
      · exact Or.inr ⟨raises, rfl, rfl, rfl, rfl⟩
  | leaseExpires lease =>
    simp only [StandbyManager.exec] at hexec
    split at hexec
    · cases hexec
      exact Or.inl ⟨rfl, rfl, fun _ h => List.mem_cons_of_mem _ h, fun h => h⟩
    · cases hexec
  | stop =>
    cases hexec
    exact Or.inl ⟨rfl, rfl, fun _ h => h, fun h => h⟩

theorem KeyChange.stays {holder : Option (LockHolder P)} {lease : LeaseId} (h : KeyChange c move holder)
    (hheld : c.holder = some (.pod q lease)) :
    holder = some (.pod q lease) ∨ move = .pod q (.leaseExpires lease) := by
  cases h with
  | kept _ _ => exact Or.inl hheld
  | acquired hfree => cases hfree.symm.trans hheld
  | @expired p lease' =>
    by_cases hsame : c.holder = some (.pod p lease')
    · cases hsame.symm.trans hheld
      exact Or.inr rfl
    · rw [if_neg hsame]
      exact Or.inl hheld
  | lost => exact Or.inl hheld
  | arrived =>
    rw [if_neg (by rw [hheld]; exact fun hnone => nomatch hnone)]
    exact Or.inl hheld
  | orphan horphan => cases horphan.symm.trans hheld

/-- The key is that of the master whose lease is alive. -/
def HoldsKey (c : Cluster P) : Prop :=
  ∀ p lease, (c.pods p).currentRole = .master → (c.pods p).etcd.lockLease = some lease →
    lease ∉ (c.pods p).etcd.expired → c.holder = some (.pod p lease)

theorem exec_holdsKey (h : HoldsKey c) (hexec : c.exec move = some c') : HoldsKey c' := by
  intro p lease hmaster hlease hlive
  obtain ⟨hkey, hfollows⟩ := exec_cases hexec
  replace hfollows := hfollows p
  cases hmove : move.ofPod p with
  | none =>
    rw [hmove] at hfollows
    have hsame : c'.pods p = c.pods p := hfollows
    rw [hsame] at hmaster hlease hlive
    rcases hkey.stays (h p lease hmaster hlease hlive) with hheld | rfl
    · exact hheld
    · rw [ClusterMove.ofPod, if_pos rfl] at hmove
      cases hmove
  | some m =>
    rw [hmove] at hfollows
    rcases mastership_cases hfollows with hkeeps | ⟨raises, rfl, -, hacquired, -⟩
    · have hheld := h p lease (hkeeps.role hmaster) (hkeeps.lockLease ▸ hlease)
        fun hexpired => hlive (hkeeps.expired lease hexpired)
      rcases hkey.stays hheld with hheld | rfl
      · exact hheld
      · -- its own lease has just expired
        rw [ClusterMove.ofPod, if_pos rfl] at hmove
        cases hmove
        simp only [Follows, StandbyManager.exec] at hfollows
        split at hfollows
        · rw [← Option.some.inj hfollows] at hlive
          exact absurd List.mem_cons_self hlive
        · cases hfollows
    · cases hacquired.symm.trans hlease
      generalize c'.holder = holder at hkey
      cases hkey with
      | @kept p' m _ hgranted =>
        simp only [ClusterMove.ofPod] at hmove
        split at hmove
        · exact absurd (Option.some.inj hmove) (hgranted raises)
        · cases hmove
      | @acquired p' raises' _ =>
        simp only [ClusterMove.ofPod] at hmove
        split at hmove
        · next heq => rw [heq]
        · cases hmove
      | expired =>
        simp only [ClusterMove.ofPod] at hmove
        split at hmove <;> cases hmove
      | lost =>
        simp only [ClusterMove.ofPod] at hmove
        split at hmove <;> cases hmove
      | arrived => cases hmove
      | orphan _ => cases hmove

/-! ## A master whose lease has expired -/

/-- How many calls of this round of renewals failed. -/
def failedAttempts : LoopPhase → ℕ
  | .renewing attempt => attempt
  | _ => 0

/-- The pod got the lock no more often than this, and if it is master still, its attempts since `s` are those of
one round. -/
structure RunsOut (s : StandbyManager) (ms : List StandbyMove) (t : StandbyManager) : Prop where
  tracked : Tracked t
  granted : s.etcd.granted ≤ t.etcd.granted
  master : t.etcd.granted = s.etcd.granted → t.currentRole = .master →
    (∃ lease, t.etcd.lockLease = some lease ∧ lease ∈ t.etcd.expired) ∧
      failedAttempts s.phase + ms.countP StandbyMove.isRenew = failedAttempts t.phase

theorem not_expired_of_renewed {s s' : StandbyManager} {lease : LeaseId}
    (h : s.renew (some .renewed) = some s') (hlease : s.lease = some lease) : lease ∉ s.etcd.expired := by
  unfold renew at h
  rw [hlease] at h
  split at h
  · simp only at h
    split at h
    · next hmay =>
      rw [mayAnswer, Bool.not_eq_true', List.contains_eq_mem, decide_eq_false_iff_not] at hmay
      exact hmay
    · cases h
  · cases h

theorem exec_runsOut {s t t' : StandbyManager} {ms : List StandbyMove} (h : RunsOut s ms t)
    (hexec : t.exec m = some t') : RunsOut s (ms ++ [m]) t' := by
  refine ⟨exec_tracked h.tracked hexec, ?_, fun hsame hmaster => ?_⟩
  · rcases mastership_cases hexec with hkeeps | ⟨-, -, hmore, -, -⟩
    · rw [hkeeps.granted]
      exact h.granted
    · rw [hmore]
      exact Nat.le_succ_of_le h.granted
  rcases mastership_cases hexec with hkeeps | ⟨-, -, hmore, -, -⟩
  · obtain ⟨⟨lease, hlease, hexpired⟩, hcount⟩ := h.master (hkeeps.granted ▸ hsame) (hkeeps.role hmaster)
    refine ⟨⟨lease, hkeeps.lockLease ▸ hlease, hkeeps.expired lease hexpired⟩, ?_⟩
    rw [List.countP_append, List.countP_singleton, ← Nat.add_assoc, hcount]
    cases m with
    | loopHead =>
      obtain ⟨hhead, ⟨-, rfl⟩ | ⟨-, rfl⟩ | ⟨hrole, rfl⟩⟩ := loopHead_cases hexec
      · cases (leaveLoop_spec t).2.1.symm.trans hmaster
      · rw [hhead]
        rfl
      · cases hrole.symm.trans hmaster
    | renew answer =>
      obtain ⟨attempt, hphase, ⟨held, hheld, rfl, -⟩ | ⟨held, a, hheld, -, -, rfl⟩ | ⟨-, -, rfl⟩⟩ :=
        renew_cases hexec
      · -- no lease that has expired is renewed
        cases (h.tracked.firstAttempt hphase hheld).2.1.symm.trans hlease
        exact absurd hexpired (not_expired_of_renewed hexec hheld)
      · cases (h.tracked.firstAttempt hphase hheld).1
        rw [hphase]
        rfl
      · rcases renewFailed_cases t attempt with ⟨-, heq⟩ | ⟨-, heq⟩
        · rw [hphase, heq]
          rfl
        · rw [heq] at hmaster
          cases hmaster
    | tryBecomeMaster granted raises =>
      obtain ⟨held, -, hnever⟩ := h.tracked.master (hkeeps.role hmaster)
      rw [(tryBecomeMaster_cases hexec).1] at hnever
      exact False.elim hnever
    | leaseExpires lease =>
      simp only [StandbyManager.exec] at hexec
      split at hexec
      · cases hexec
        rfl
      · cases hexec
    | stop =>
      cases hexec
      rfl
  · have := h.granted
    omega

/-- What keeps its role although its lease has expired, does so for this round of renewals only. -/
theorem renewals_le {s t : StandbyManager} {ms : List StandbyMove} (h : Tracked s)
    (hstale : ¬s.LiveMaster) (hmaster : s.currentRole = .master)
    (hrun : Run StandbyManager.exec Free s ms t) (hsame : t.etcd.granted = s.etcd.granted)
    (hmaster' : t.currentRole = .master) : ms.countP StandbyMove.isRenew ≤ maxRetries := by
  have hstart : RunsOut s [] s := by
    refine ⟨h, Nat.le_refl _, fun _ _ => ⟨?_, rfl⟩⟩
    obtain ⟨lease, hlease, -⟩ := h.master hmaster
    refine ⟨lease, hlease, ?_⟩
    by_contra hlive
    exact hstale ⟨hmaster, lease, hlease, hlive⟩
  have hend := hrun.invariant (I := RunsOut s) hstart fun hI _ hexec => exec_runsOut hI hexec
  have hcount := (hend.master hsame hmaster').2
  have hlimit : failedAttempts t.phase ≤ maxRetries := by
    cases hphase : t.phase with
    | renewing attempt => exact (hend.tracked.renewing attempt hphase).2
    | head => exact Nat.zero_le _
    | acquiring => exact Nat.zero_le _
    | stopped => exact Nat.zero_le _
  omega

variable {config : StandbyConfig} {podNamespace jobName : String} {moves : List (ClusterMove P)}

/-- **One live master**: in every interleaving, whatever answers are lost, at most one pod is master under a lease
that has not expired, and the key is its own. A master whose lease has expired makes at most two more attempts
to renew it before it steps down. -/
theorem one_live_master (h : Run exec Free (start config podNamespace jobName) moves c) :
    (∀ p q, (c.pods p).LiveMaster → (c.pods q).LiveMaster → p = q) ∧
      (∀ p, (c.pods p).LiveMaster → ∃ lease ∈ (c.pods p).etcd.lockLease, c.holder = some (.pod p lease)) ∧
      ∀ p moves' d, (c.pods p).currentRole = .master → ¬(c.pods p).LiveMaster → Run exec Free c moves' d →
        (d.pods p).etcd.granted = (c.pods p).etcd.granted → (d.pods p).currentRole = .master →
          (moves'.filterMap (·.ofPod p)).countP StandbyMove.isRenew ≤ maxRetries := by
  have hkey : HoldsKey c := h.invariant_state (I := HoldsKey) (fun _ _ hmaster => nomatch hmaster)
    fun hI _ hexec => exec_holdsKey hI hexec
  have hheld : ∀ p, (c.pods p).LiveMaster →
      ∃ lease ∈ (c.pods p).etcd.lockLease, c.holder = some (.pod p lease) := by
    rintro p ⟨hmaster, lease, hlease, hlive⟩
    exact ⟨lease, hlease, hkey p lease hmaster hlease hlive⟩
  refine ⟨fun p q hp hq => ?_, hheld, fun p moves' d hmaster hstale hrun hsame hmaster' => ?_⟩
  · obtain ⟨lease, -, hholder⟩ := hheld p hp
    obtain ⟨lease', -, hholder'⟩ := hheld q hq
    cases hholder.symm.trans hholder'
    rfl
  · exact renewals_le (tracked_of_run (run_pod h p)) hstale hmaster (run_pod hrun p) hsame hmaster'

/-- The lease of the first pod expires, the answer to the second one is lost, and it asks again. The first pod has
not noticed yet. -/
def twoMasters : List (ClusterMove Bool) :=
  [.pod false .loopHead, .pod false (.tryBecomeMaster true false), .pod false .loopHead, .pod true .loopHead,
    .pod false (.leaseExpires 0), .loseAnswer true, .txnArrives, .pod true .loopHead,
    .pod true (.tryBecomeMaster false false), .orphanExpires, .pod true .loopHead,
    .pod true (.tryBecomeMaster true false)]

theorem twoMasters_one_live : ∃ c : Cluster Bool,
    Run exec Free (start defaultConfig "ns" "job") twoMasters c ∧
      ((c.pods false).currentRole, (c.pods true).currentRole, c.holder) =
        (.master, .master, some (.pod true 0)) ∧
      ((∀ p q, (c.pods p).LiveMaster → (c.pods q).LiveMaster → p = q) ∧
        (∀ p, (c.pods p).LiveMaster → ∃ lease ∈ (c.pods p).etcd.lockLease, c.holder = some (.pod p lease)) ∧
        ∀ p moves' d, (c.pods p).currentRole = .master → ¬(c.pods p).LiveMaster →
          Run exec Free c moves' d → (d.pods p).etcd.granted = (c.pods p).etcd.granted →
            (d.pods p).currentRole = .master →
              (moves'.filterMap (·.ofPod p)).countP StandbyMove.isRenew ≤ maxRetries) := by
  obtain ⟨c, hrun, hroles⟩ : ∃ c : Cluster Bool, Run exec Free (start defaultConfig "ns" "job") twoMasters c ∧
      ((c.pods false).currentRole, (c.pods true).currentRole, c.holder) =
        (.master, .master, some (.pod true 0)) :=
    runList_exists (f := fun c : Cluster Bool => ((c.pods false).currentRole, (c.pods true).currentRole, c.holder))
      (by decide +kernel)
  exact ⟨c, hrun, hroles, one_live_master hrun⟩

end Cluster

end PyMotor.Common
