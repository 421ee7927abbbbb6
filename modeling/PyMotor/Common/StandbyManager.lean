import Mathlib.Data.Int.Notation
import PyMotor.Lib.Dict
import PyMotor.Lib.Run

/-!
# Master and standby

Several pods of a controller or a coordinator run, and one of them is the master: the one that holds a lock in
ETCD under a lease. A loop (`common/standby/standby_manager.py`, `StandbyManager`) renews the lease as long
as the pod is master, and tries to get the lock as long as it is not. The client of ETCD
(`common/etcd/etcd_client.py`, `EtcdClient`) keeps the lease of each lock it holds.

A `Move` is one call of the client by the loop, the head of the loop, or something from outside: a lease
expires in ETCD, or the loop is asked to stop. What ETCD answers is part of the move, but it must fit: only a
lease that has not expired is renewed, and only one that has is reported as expired. The time that passes is
left out.
-/

namespace PyMotor.Common

/-- A lease under which the pod got the lock, by their order. -/
abbrev LeaseId := ℕ

/-- What becomes of a `LeaseKeepAlive` call. -/
inductive KeepAlive where
  /-- The answer has a positive TTL. -/
  | renewed
  /-- The answer has no TTL left. -/
  | expired
  /-- The call raises. -/
  | error
  deriving DecidableEq, Repr

/-! ## The client -/

structure EtcdClient where
  podNamespace : String
  jobName : String
  leases : Dict String LeaseId

namespace EtcdClient

variable (c : EtcdClient)

def getKeyWithNamespaceAndJobName (key : String) : String :=
  if key.startsWith (c.podNamespace ++ "/" ++ c.jobName ++ "/") then key
  else c.podNamespace ++ "/" ++ c.jobName ++ key

/-- `_get_lock_key_and_id` -/
def leaseOf (lockKey : String) : Option LeaseId :=
  c.leases.get? (c.getKeyWithNamespaceAndJobName lockKey)

def forget (lockKey : String) : EtcdClient :=
  { c with leases := c.leases.erase (c.getKeyWithNamespaceAndJobName lockKey) }

/-- A lock that the client has is not acquired again. `granted` is the lease if ETCD gives the lock. -/
def acquireLock (lockKey : String) (granted : Option LeaseId) : Option LeaseId × EtcdClient :=
  if c.leases.contains (c.getKeyWithNamespaceAndJobName lockKey) then (none, c)
  else
    match granted with
    | none => (none, c)
    | some lease =>
      (some lease, { c with
        leases := c.leases.insert (c.getKeyWithNamespaceAndJobName lockKey) lease })

/-- Without a lease on record there is nothing to renew and no call is made. -/
def renewLease (lockKey : String) (answer : KeepAlive) : Bool × EtcdClient :=
  match c.leaseOf lockKey with
  | none => (false, c)
  | some _ =>
    match answer with
    | .renewed => (true, c)
    | .expired => (false, c.forget lockKey)
    | .error => (false, c.forget lockKey)

/-- Whatever becomes of the `LeaseRevoke` call, the lease is forgotten. -/
def releaseLock (lockKey : String) : EtcdClient := c.forget lockKey

end EtcdClient

/-! ## The loop -/

structure StandbyConfig where
  masterLockKey : String
  masterLockMaxFailures : ℤ

inductive StandbyRole where
  | standby
  | master
  deriving DecidableEq, Repr

/-- Where the loop is. -/
inductive LoopPhase where
  /-- At its head. -/
  | head
  /-- Before a call of `renew_lease`. -/
  | renewing (attempt : ℕ)
  /-- In `_try_become_master`. -/
  | acquiring
  /-- The thread has ended. -/
  | stopped
  deriving DecidableEq, Repr

/-- What ETCD knows of the pod. -/
structure Etcd where
  /-- How often the pod got the lock. -/
  granted : ℕ
  /-- The lease under which it got the lock last. -/
  lockLease : Option LeaseId
  expired : List LeaseId
  /-- The `LeaseKeepAlive` calls of the pod, newest first. -/
  calls : List (LeaseId × KeepAlive)
  deriving DecidableEq, Repr

structure StandbyManager where
  config : StandbyConfig
  client : EtcdClient
  currentRole : StandbyRole
  hasSetRole : Bool
  stopEvent : Bool
  phase : LoopPhase
  etcd : Etcd

inductive StandbyMove where
  | loopHead
  /-- A call of `renew_lease`, and what becomes of the `LeaseKeepAlive` call, if one is made. -/
  | renew (answer : Option KeepAlive)
  /-- `granted`: ETCD gives the lock; `raises`: a callback raises. -/
  | tryBecomeMaster (granted raises : Bool)
  | leaseExpires (lease : LeaseId)
  | stop
  deriving DecidableEq, Repr

namespace StandbyManager

def new (config : StandbyConfig) (podNamespace jobName : String) : StandbyManager where
  config := config
  client := ⟨podNamespace, jobName, ∅⟩
  currentRole := .standby
  hasSetRole := false
  stopEvent := false
  phase := .head
  etcd := ⟨0, none, [], []⟩

/-- `max_retries` of `_renew_master_lock`. -/
def maxRetries : ℕ := 2

variable (s : StandbyManager)

def setRole (role : StandbyRole) : StandbyManager := { s with currentRole := role }

def goto (phase : LoopPhase) : StandbyManager := { s with phase := phase }

/-- The lease on record for the master lock. -/
def lease : Option LeaseId := s.client.leaseOf s.config.masterLockKey

/-- When the loop ends, a master gives the lock back. -/
def leaveLoop : StandbyManager :=
  match s.currentRole with
  | .standby => s.goto .stopped
  | .master =>
    ({ s with client := s.client.releaseLock s.config.masterLockKey }.setRole .standby).goto .stopped

def loopHead : Option StandbyManager :=
  if s.phase ≠ .head then none
  else if s.stopEvent then some s.leaveLoop
  else
    match s.currentRole with
    | .master => some (s.goto (.renewing 0))
    | .standby => some (s.goto .acquiring)

/-- After a call that failed: the next attempt, or the pod becomes standby. -/
def renewFailed (attempt : ℕ) : StandbyManager :=
  if attempt < maxRetries then s.goto (.renewing (attempt + 1))
  else (s.setRole .standby).goto .head

/-- ETCD may answer so. -/
def mayAnswer (lease : LeaseId) : KeepAlive → Bool
  | .renewed => !s.etcd.expired.contains lease
  | .expired => s.etcd.expired.contains lease
  | .error => true

/-- The `LeaseKeepAlive` call, and what the client makes of it. -/
def keepAlive (lease : LeaseId) (answer : KeepAlive) : StandbyManager :=
  { s with
    client := (s.client.renewLease s.config.masterLockKey answer).2
    etcd := { s.etcd with calls := (lease, answer) :: s.etcd.calls } }

def renew (answer : Option KeepAlive) : Option StandbyManager :=
  match s.phase with
  | .renewing attempt =>
    match s.lease, answer with
    | none, none => some (s.renewFailed attempt)
    | some lease, some answer =>
      if s.mayAnswer lease answer then
        match (s.client.renewLease s.config.masterLockKey answer).1 with
        | true => some ((s.keepAlive lease answer).goto .head)
        | false => some ((s.keepAlive lease answer).renewFailed attempt)
      else none
    | _, _ => none
  | _ => none

/-- `acquire_lock` never raises, so there is one attempt at most. -/
def tryBecomeMaster (granted raises : Bool) : Option StandbyManager :=
  if s.phase ≠ .acquiring then none
  else if s.config.masterLockMaxFailures ≤ 0 ∨ s.stopEvent then
    some { s.goto .head with hasSetRole := true }
  else
    let acquired := s.client.acquireLock s.config.masterLockKey
      (if granted then some s.etcd.granted else none)
    match acquired.1 with
    | none => some { (s.setRole .standby).goto .head with hasSetRole := true }
    | some lease => some { (s.setRole .master).goto .head with
        client := acquired.2
        hasSetRole := s.hasSetRole || !raises
        etcd := { s.etcd with granted := s.etcd.granted + 1, lockLease := some lease } }

def exec : StandbyMove → Option StandbyManager
  | .loopHead => s.loopHead
  | .renew answer => s.renew answer
  | .tryBecomeMaster granted raises => s.tryBecomeMaster granted raises
  | .leaseExpires lease =>
    if lease < s.etcd.granted then
      some { s with etcd := { s.etcd with expired := lease :: s.etcd.expired } }
    else none
  | .stop => some { s with stopEvent := true }

end StandbyManager

/-! ## What the client keeps on record -/

namespace EtcdClient

variable (c : EtcdClient) (lockKey : String)

@[simp] theorem leaseOf_forget : (c.forget lockKey).leaseOf lockKey = none := by
  unfold leaseOf forget
  show (c.leases.erase (c.getKeyWithNamespaceAndJobName lockKey)).get?
    (c.getKeyWithNamespaceAndJobName lockKey) = none
  rw [Dict.get?_erase, if_pos rfl]

/-- A call that failed leaves no lease on record. -/
theorem renewLease_spec {lease : LeaseId} (h : c.leaseOf lockKey = some lease) (answer : KeepAlive) :
    answer = .renewed ∧ c.renewLease lockKey answer = (true, c) ∨
      answer ≠ .renewed ∧ c.renewLease lockKey answer = (false, c.forget lockKey) := by
  unfold renewLease
  rw [h]
  cases answer with
  | renewed => exact Or.inl ⟨rfl, rfl⟩
  | expired => exact Or.inr ⟨fun h => (nomatch h), rfl⟩
  | error => exact Or.inr ⟨fun h => (nomatch h), rfl⟩

/-- A lock that is acquired has its lease on record. -/
theorem acquireLock_spec {granted : Option LeaseId} {lease : LeaseId}
    (h : (c.acquireLock lockKey granted).1 = some lease) :
    granted = some lease ∧ (c.acquireLock lockKey granted).2.leaseOf lockKey = some lease := by
  unfold acquireLock at h ⊢
  split at h
  · cases h
  · next hnew =>
    cases granted with
    | none => cases h
    | some granted =>
      cases h
      rw [if_neg hnew]
      exact ⟨rfl, Dict.get?_insert_self _ _ _⟩

end EtcdClient

end PyMotor.Common
