import PyMotor.Coordinator.CircuitBreaker

/-!
# Blocked instances

A worker does not select an instance that it believes to be blocked. It keeps these in
`_cb_blocked_instances` (`coordinator/scheduler/runtime/scheduler_client.py`), by what the scheduler
publishes: an open circuit adds the instance and a closed one removes it. When the instance itself
goes, the scheduler says nothing about its circuit, and the worker drops what is not in its cache any
more; but it does so only when it hears of the change through a publication, not when it finds out
through the shared segment.

The channel of the publications loses nothing and keeps the order. The worker's part is the one of the
membership; the scheduler's is the one of the circuits.
-/

namespace PyMotor.Coordinator

/-- The publication is about the circuit of the instance. -/
def Publication.isAbout (id : InstanceId) : Publication → Bool
  | .circuit id' _ => decide (id' = id)
  | .instances _ => false

/-- The instances that a change removes. -/
def InstanceChanged.removed (changed : InstanceChanged) : List InstanceId :=
  match changed.delta with
  | some ⟨.del, instances⟩ => instances.map (·.id)
  | some ⟨.add, _⟩ => []
  | none => []

structure Blocking where
  breaker : BreakerServer
  client : SchedulerClient
  cbBlockedInstances : OrdSet InstanceId
  /-- The pulls that the worker waits for. -/
  calls : List GetCall

inductive BlockingStep where
  | scheduler (l : BreakerStep)
  /-- The worker takes the next publication off the channel. -/
  | receive
  /-- Some task of the worker pulls. -/
  | get (asked : Option PDRole)
  /-- Some task of the worker reads the segment. -/
  | read (stale : Option Bool)
  | answer (i : Nat) (succeeds : Bool)
  | deliver (i : Nat) (outcome : AttachOutcome)
  | timeOut (i : Nat)

namespace Blocking

def start : Blocking := ⟨.start, .new, ∅, []⟩

/-! ## The worker -/

/-- The ids in the cache, of all roles. -/
def cachedIds (c : SchedulerClient) : List InstanceId :=
  PDRole.all.flatMap fun role => (c.cache.instanceCache role).map (·.id)

def onCircuitBreakerChange (s : Blocking) (id : InstanceId) : CircuitState → Blocking
  | .open => { s with cbBlockedInstances := s.cbBlockedInstances.insert id }
  | .closed => { s with cbBlockedInstances := s.cbBlockedInstances.erase id }

/-- A removal that is patched in takes the instances out of the blocked ones. -/
def unblockRemoved (blocked : OrdSet InstanceId) : Option InstanceDelta → OrdSet InstanceId
  | some ⟨.del, instances⟩ => blocked.filter fun id => decide (id ∉ instances.map (·.id))
  | some ⟨.add, _⟩ => blocked
  | none => blocked

def onInstanceChangeNotify (s : Blocking) (changed : InstanceChanged) : Blocking :=
  match s.client.onInstanceChangeNotify (some changed.version) changed.delta with
  | .known => s
  | .patched client =>
    { s with
      client := client
      cbBlockedInstances := unblockRemoved s.cbBlockedInstances changed.delta }
  | .pull => { s with calls := s.calls ++ [⟨none, .notified (some changed.version), none⟩] }

def receive (s : Blocking) : Publication → Blocking
  | .circuit id state => s.onCircuitBreakerChange id state
  | .instances changed => s.onInstanceChangeNotify changed

/-- The subscriber takes the next publication when it is done with the last one. -/
def subscriberBusy (s : Blocking) : Bool :=
  s.calls.any fun call => match call.after with
    | .notified _ => true
    | _ => false

/-- After a pull for a publication, what is not cached is not blocked; not so after the others, and not
if the pull raised. -/
def finishGet (s : Blocking) (call : GetCall) (reply : Option Reply) (outcome : AttachOutcome) : Blocking :=
  let client := s.client.finishGet call.asked call.after reply outcome
  let blocked :=
    match call.after, (s.client.getAvailableInstances call.asked reply outcome).1 with
    | .notified _, true => s.cbBlockedInstances.filter fun id => decide (id ∈ cachedIds client)
    | _, _ => s.cbBlockedInstances
  { s with client := client, cbBlockedInstances := blocked }

def read (s : Blocking) (stale : Option Bool) : Blocking :=
  let found := stale.map fun stale => (s.breaker.server.headerVersion, stale)
  match s.client.refreshCacheFromWorkloadReader found with
  | (client, none) => { s with client := client }
  | (client, some after) => { s with client := client, calls := s.calls ++ [⟨none, after, none⟩] }

def answer (s : Blocking) (i : Nat) (call : GetCall) (succeeds : Bool) : Blocking :=
  let reply :=
    if succeeds then .success (s.breaker.server.handleGetAvailableInstances call.asked) else .error
  let answer := ⟨reply, s.breaker.server.instanceVersion⟩
  { s with calls := s.calls.set i { call with answer := some answer } }

/-! ## Steps -/

def exec (s : Blocking) : BlockingStep → Option Blocking
  | .scheduler l => (s.breaker.exec l).map fun breaker => { s with breaker := breaker }
  | .receive =>
    if s.subscriberBusy then none
    else
      match s.breaker.channel with
      | [] => none
      | publication :: channel =>
        some ({ s with breaker := { s.breaker with channel := channel } }.receive publication)
  | .get asked => some { s with calls := s.calls ++ [⟨asked, .nothing, none⟩] }
  | .read stale => some (s.read stale)
  | .answer i succeeds =>
    s.calls[i]?.bind fun call =>
      if call.answer.isNone then some (s.answer i call succeeds) else none
  | .deliver i outcome =>
    s.calls[i]?.bind fun call => call.answer.map fun answer =>
      { s with calls := s.calls.eraseIdx i }.finishGet call (some answer.reply) outcome
  | .timeOut i =>
    s.calls[i]?.map fun call =>
      { s with calls := s.calls.eraseIdx i }.finishGet call none .notFound

/-- Nothing is in flight: no publication, no pull, and no task that is still to publish. -/
def Settled (s : Blocking) : Prop :=
  s.breaker.channel = [] ∧ s.calls = [] ∧ s.breaker.closedToPublish = []

/-- What a step removes. -/
def removal : BlockingStep → Option (HashOrder InstanceId × List Instance)
  | .scheduler (.refresh σ .del instances) => some (σ, instances)
  | _ => none

/-- The change that a step takes off the channel. -/
def taken (s : Blocking) : BlockingStep → Option InstanceChanged
  | .receive =>
    match s.breaker.channel with
    | .instances changed :: _ => some changed
    | _ => none
  | _ => none

/-- There is more to come about the circuit. -/
def isAnnounced (s : Blocking) (id : InstanceId) : Bool :=
  decide (id ∈ s.breaker.closedToPublish) || s.breaker.channel.any (·.isAbout id)

/-- A removal that takes an open circuit with it is published. And a worker that blocks an instance learns
of its removal from the publication, as the next version, unless the circuit is open again or there is
more to come about it. -/
def LearnsRemovals (s : Blocking) (l : BlockingStep) : Prop :=
  (∀ r ∈ removal l, (s.breaker.server.instanceManager.refreshInstances r.1 .del r.2).1.toOption = some false →
    ∀ inst ∈ r.2, s.breaker.cbManager.isOpen inst.id = false) ∧
  ∀ changed ∈ s.taken l, ∀ id ∈ changed.removed, id ∈ s.cbBlockedInstances →
    s.breaker.cbManager.isOpen id = true ∨ s.isAnnounced id = true ∨
      s.client.lastInstanceVersion.map (· + 1) = some changed.version

instance (s : Blocking) (l : BlockingStep) : Decidable (s.LearnsRemovals l) :=
  inferInstanceAs (Decidable ((∀ r ∈ removal l, _ → _) ∧ ∀ changed ∈ s.taken l, _))

end Blocking

end PyMotor.Coordinator
