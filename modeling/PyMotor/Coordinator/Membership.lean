import Mathlib.Algebra.Order.Ring.Nat
import PyMotor.Coordinator.InstanceCache

/-!
# Membership: the scheduler and a worker

The scheduler process owns the pools. It counts their changes in `instance_version`, publishes every
change with its new version, writes the version to the header of the shared segment, and answers
pulls (`coordinator/scheduler/runtime/scheduler_server.py`). A worker caches the available instances
and remembers in `_last_instance_version` which version it believes to have
(`coordinator/scheduler/runtime/scheduler_client.py`). It patches the cache by what is published if
the version is the next one, and otherwise pulls everything; before a request it compares the version
with the header of the segment.

Both processes are event loops, so what one of them does between two awaits is one step. Between the
steps, publications are lost, delayed and reordered, and pulls wait for their answers or give up.

The loads that the messages carry along, the circuit breakers and the callbacks after a refresh are
left out, and so is a restart of the scheduler.
-/

namespace PyMotor.Coordinator

/-! ## The scheduler -/

inductive DeltaEvent where
  | add
  | del
  deriving DecidableEq, Repr

structure InstanceDelta where
  event : DeltaEvent
  instances : List Instance

/-- A publication: the new version and, if workers can patch it in, the change. -/
structure InstanceChanged where
  version : Nat
  delta : Option InstanceDelta

structure SchedulerServer where
  instanceManager : InstanceManager
  instanceVersion : Nat

namespace SchedulerServer

/-- The first snapshot is written before any request is handled. -/
def start : SchedulerServer := ⟨.new, 1⟩

def buildInstanceDelta (eventType : EventType) (instances : List Instance) : Option InstanceDelta :=
  if instances.isEmpty then none
  else
    match eventType with
    | .add => some ⟨.add, instances⟩
    | .del => some ⟨.del, instances⟩
    | .set => none
    | .pause => none
    | .resume => none

/-- A refresh that modified the pools writes a snapshot, which counts the version up, and publishes. If
it raises, it does neither. -/
def handleRefreshInstances (srv : SchedulerServer) (σ : HashOrder InstanceId) (eventType : EventType)
    (instances : List Instance) : SchedulerServer × Option InstanceChanged :=
  match srv.instanceManager.refreshInstances σ eventType instances with
  | (.error _, m) => (⟨m, srv.instanceVersion⟩, none)
  | (.ok false, m) => (⟨m, srv.instanceVersion⟩, none)
  | (.ok true, m) =>
    (⟨m, srv.instanceVersion + 1⟩,
      some ⟨srv.instanceVersion + 1, buildInstanceDelta eventType instances⟩)

/-- A load is written for an endpoint that has no slot in the segment. -/
def writeSnapshot (srv : SchedulerServer) : SchedulerServer :=
  ⟨srv.instanceManager, srv.instanceVersion + 1⟩

def handleGetAvailableInstances (srv : SchedulerServer) (role : Option PDRole) : List Instance :=
  (srv.instanceManager.getAvailableInstances role).values

/-- The version in the header of the segment. -/
def headerVersion (srv : SchedulerServer) : Nat := srv.instanceVersion % 2 ^ 64

end SchedulerServer

/-! ## The worker -/

inductive ReaderState where
  | absent
  | unattached
  | attached
  deriving DecidableEq, Repr

inductive AttachOutcome where
  | attached
  | notFound
  | raised
  deriving DecidableEq, Repr

inductive Reply where
  | success (instances : List Instance)
  | error

/-- What the caller of a pull does when it is over. -/
inductive AfterGet where
  | nothing
  /-- `_on_instance_change_notify` takes over the published version. -/
  | notified (version : Option Nat)
  /-- `_pull_instances_and_notify` takes over the version it read. -/
  | pulled (version : Option Nat)
  deriving DecidableEq, Repr

/-- The version that is taken over. -/
def AfterGet.version : AfterGet → Option Nat
  | .nothing => none
  | .notified version => version
  | .pulled version => version

structure SchedulerClient where
  cache : InstanceCache
  lastInstanceVersion : Option Nat
  workloadReader : ReaderState

/-- What comes of a publication. -/
inductive Notified where
  | known
  | patched (client : SchedulerClient)
  | pull

namespace SchedulerClient

def new : SchedulerClient := ⟨.new, none, .absent⟩

/-! ### Pulls -/

/-- The table by which a full answer is split. -/
def roleOfAnswer (role : String) : Option PDRole :=
  if role = "encode" then some .encode
  else if role = "prefill" then some .prefill
  else if role = "decode" then some .decode
  else if role = "union" ∨ role = "both" ∨ role = "hybrid" then some .union
  else none

/-- The first answer names the segment; attaching to it forgets the version. Whether the pull goes on. -/
def attachReader (c : SchedulerClient) (outcome : AttachOutcome) : Bool × SchedulerClient :=
  match c.workloadReader, outcome with
  | .absent, .attached => (true, { c with workloadReader := .attached, lastInstanceVersion := none })
  | .absent, .notFound => (true, c)
  | .absent, .raised => (false, { c with workloadReader := .unattached })
  | .unattached, _ => (true, c)
  | .attached, _ => (true, c)

/-- The instances of an answer that go under a role. -/
def sharedOut (asked : Option PDRole) (instances : List Instance) (role : PDRole) : List Instance :=
  let byId := InstanceManager.newInstById instances
  match asked with
  | some _ => sortById byId.values
  | none => sortById (byId.values.filter fun inst => decide (roleOfAnswer inst.role = some role))

/-- The roles that an answer is about. -/
def answeredRoles : Option PDRole → List PDRole
  | some role => [role]
  | none => PDRole.all

def storeInstances (c : SchedulerClient) (asked : Option PDRole) (instances : List Instance) :
    SchedulerClient :=
  let cache := (answeredRoles asked).foldl
    (fun cache role => cache.replaceAll role (sharedOut asked instances role)) c.cache
  { c with cache := cache }

/-- The answer is stored, and `none` is a time-out. Whether the pull returned. -/
def getAvailableInstances (c : SchedulerClient) (asked : Option PDRole) (reply : Option Reply)
    (outcome : AttachOutcome) : Bool × SchedulerClient :=
  match reply with
  | some (.success instances) =>
    match c.attachReader outcome with
    | (true, c) => (true, c.storeInstances asked instances)
    | (false, c) => (false, c)
  | some .error => (true, c)
  | none => (true, c)

/-- The version is taken over whether or not there was an answer. -/
def afterGet (c : SchedulerClient) : AfterGet → SchedulerClient
  | .nothing => c
  | .notified none => c
  | .notified (some version) => { c with lastInstanceVersion := some version }
  | .pulled version => { c with lastInstanceVersion := version }

def finishGet (c : SchedulerClient) (asked : Option PDRole) (after : AfterGet) (reply : Option Reply)
    (outcome : AttachOutcome) : SchedulerClient :=
  match c.getAvailableInstances asked reply outcome with
  | (true, c) => c.afterGet after
  | (false, c) => c

/-! ### Publications and the segment -/

def tryApplyInstanceDelta (c : SchedulerClient) (version : Option Nat) (delta : Option InstanceDelta) :
    Option SchedulerClient :=
  match delta, version, c.lastInstanceVersion with
  | some delta, some version, some last =>
    if version ≠ last + 1 ∨ delta.instances.isEmpty then none
    else
      match delta.event with
      | .add =>
        (c.cache.applyAdd delta.instances).map
          fun cache => { c with cache := cache, lastInstanceVersion := some version }
      | .del =>
        some { c with
          cache := c.cache.applyRemove delta.instances
          lastInstanceVersion := some version }
  | _, _, _ => none

def onInstanceChangeNotify (c : SchedulerClient) (version : Option Nat)
    (delta : Option InstanceDelta) : Notified :=
  if version ≠ none ∧ version = c.lastInstanceVersion then .known
  else
    match c.tryApplyInstanceDelta version delta with
    | some c => .patched c
    | none => .pull

/-- What was read, if anything: the version, and whether the heartbeat is stale. The version is taken
over as it is, or only with a pull. -/
def refreshCacheFromWorkloadReader (c : SchedulerClient) (read : Option (Nat × Bool)) :
    SchedulerClient × Option AfterGet :=
  match c.workloadReader, read with
  | .attached, some (version, true) => (c, some (.pulled (some version)))
  | .attached, some (version, false) =>
    if c.lastInstanceVersion ≠ none ∧ c.lastInstanceVersion ≠ some version then
      (c, some (.pulled (some version)))
    else ({ c with lastInstanceVersion := some version }, none)
  | _, _ => (c, none)

end SchedulerClient

/-! ## Steps -/

/-- A reply under way. The version that the scheduler had is bookkeeping; the message does not say it. -/
structure Answer where
  reply : Reply
  version : Nat

/-- A pull that the worker waits for. -/
structure GetCall where
  asked : Option PDRole
  after : AfterGet
  answer : Option Answer

structure Membership where
  server : SchedulerServer
  client : SchedulerClient
  notifications : List InstanceChanged
  calls : List GetCall
  /-- Bookkeeping: the version that what the worker caches for a role was answered or patched at. -/
  asOf : PDRole → Nat

inductive MembershipStep where
  /-- The scheduler handles an event. -/
  | refresh (σ : HashOrder InstanceId) (eventType : EventType) (instances : List Instance)
  | snapshot
  /-- A publication is lost. -/
  | lose (i : Nat)
  /-- A publication reaches the worker. -/
  | notify (i : Nat)
  /-- Some task of the worker pulls. -/
  | get (asked : Option PDRole)
  /-- Some task of the worker reads the segment: in vain, or with what it finds about the heartbeat. -/
  | read (stale : Option Bool)
  /-- The scheduler answers, or fails to. -/
  | answer (i : Nat) (succeeds : Bool)
  | deliver (i : Nat) (outcome : AttachOutcome)
  | timeOut (i : Nat)

namespace Membership

/-- A fresh worker has nothing cached, as the scheduler has nothing at its first version. -/
def start : Membership := ⟨.start, .new, [], [], fun _ => 1⟩

/-- The subscriber takes the next publication when it is done with the last one. -/
def subscriberBusy (s : Membership) : Bool :=
  s.calls.any fun call => match call.after with
    | .notified _ => true
    | _ => false

def notify (s : Membership) (changed : InstanceChanged) : Membership :=
  match s.client.onInstanceChangeNotify (some changed.version) changed.delta with
  | .known => s
  | .patched client => { s with client := client, asOf := fun _ => changed.version }
  | .pull => { s with calls := s.calls ++ [⟨none, .notified (some changed.version), none⟩] }

def read (s : Membership) (stale : Option Bool) : Membership :=
  let found := stale.map fun stale => (s.server.headerVersion, stale)
  match s.client.refreshCacheFromWorkloadReader found with
  | (client, none) => { s with client := client }
  | (client, some after) => { s with client := client, calls := s.calls ++ [⟨none, after, none⟩] }

def answer (s : Membership) (i : Nat) (call : GetCall) (succeeds : Bool) : Membership :=
  let reply := if succeeds then .success (s.server.handleGetAvailableInstances call.asked) else .error
  { s with calls := s.calls.set i { call with answer := some ⟨reply, s.server.instanceVersion⟩ } }

/-- The version of what is cached, after a reply. -/
def asOfAfter (s : Membership) (asked : Option PDRole) (answer : Answer) (outcome : AttachOutcome) :
    PDRole → Nat :=
  match answer.reply, s.client.attachReader outcome with
  | .success _, (true, _) =>
    fun role => if role ∈ SchedulerClient.answeredRoles asked then answer.version else s.asOf role
  | _, _ => s.asOf

def deliver (s : Membership) (call : GetCall) (answer : Answer) (outcome : AttachOutcome) :
    Membership :=
  { s with
    client := s.client.finishGet call.asked call.after (some answer.reply) outcome
    asOf := s.asOfAfter call.asked answer outcome }

def exec (s : Membership) : MembershipStep → Option Membership
  | .refresh σ eventType instances =>
    let (server, changed) := s.server.handleRefreshInstances σ eventType instances
    some { s with server := server, notifications := s.notifications ++ changed.toList }
  | .snapshot => some { s with server := s.server.writeSnapshot }
  | .lose i =>
    s.notifications[i]?.map fun _ => { s with notifications := s.notifications.eraseIdx i }
  | .notify i =>
    if s.subscriberBusy then none
    else
      s.notifications[i]?.map
        { s with notifications := s.notifications.eraseIdx i }.notify
  | .get asked => some { s with calls := s.calls ++ [⟨asked, .nothing, none⟩] }
  | .read stale => some (s.read stale)
  | .answer i succeeds =>
    s.calls[i]?.bind fun call =>
      if call.answer.isNone then some (s.answer i call succeeds) else none
  | .deliver i outcome =>
    s.calls[i]?.bind fun call => call.answer.map fun answer =>
      { s with calls := s.calls.eraseIdx i }.deliver call answer outcome
  | .timeOut i =>
    s.calls[i]?.map fun call =>
      { s with
        calls := s.calls.eraseIdx i
        client := s.client.finishGet call.asked call.after none .notFound }

end Membership

end PyMotor.Coordinator
