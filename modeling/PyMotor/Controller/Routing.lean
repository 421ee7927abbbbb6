import PyMotor.Controller.EventPusher

/-!
# Controller and coordinator

The controller decides which instances serve requests, and the coordinator routes to those it has been
told of. The two are connected by the event pusher's queue, and by the one message that its thread is
sending; here every message arrives, in order.
-/

namespace PyMotor.Controller

open Coordinator (InstanceId EndpointId)

structure Deployment where
  controller : InstanceManager
  pusher : EventPusher
  /-- The message that is being sent. -/
  inFlight : Option InsEventMsg
  coordinator : Coordinator.InstanceManager

inductive DeploymentOp where
  | addInstance (ins : Instance)
  | heartbeat (id : InstanceId) (ip : String) (status : Dict EndpointId EndpointStatus)
  /-- `abnormal` is the answer of the node managers. -/
  | heartbeatTimeout (id : InstanceId) (abnormal : Bool)
  | separateInstance (id : InstanceId)
  | recoverInstance (id : InstanceId)
  | pushSet
  /-- The pusher takes the next event and sends a message for it. -/
  | consume
  /-- The coordinator refreshes its pools. -/
  | deliver (σ : HashOrder InstanceId)

namespace Deployment

def new : Deployment := ⟨.new, .new, none, .new⟩

/-- The pusher learns what the manager notifies. -/
def notify (s : Deployment) (step : InstanceManager × List Notification) : Deployment :=
  { s with controller := step.1, pusher := step.2.foldl EventPusher.update s.pusher }

/-- An assembled instance is in its initial status. -/
def exec (s : Deployment) : DeploymentOp → Option Deployment
  | .addInstance ins =>
    if ins.status = .initial then some (s.notify (s.controller.addInstance ins)) else none
  | .heartbeat id ip status => some (s.notify (s.controller.handleHeartbeat id ip status).2)
  | .heartbeatTimeout id abnormal => some (s.notify (s.controller.handleHeartbeatTimeout id abnormal))
  | .separateInstance id => some (s.notify (s.controller.separateInstance id))
  | .recoverInstance id => some { s with controller := s.controller.recoverInstance id }
  | .pushSet => some { s with pusher := s.pusher.pushSet }
  | .consume =>
    match s.inFlight, s.pusher.eventQueue with
    | none, e :: rest =>
      some { s with
        pusher := { s.pusher with eventQueue := rest }
        inFlight := s.pusher.eventMsg e }
    | _, _ => none
  | .deliver σ =>
    match s.inFlight with
    | none => none
    | some msg =>
      some { s with
        inFlight := none
        coordinator := (s.coordinator.refreshInstances σ msg.event msg.instances).2 }

/-- Nothing is on its way to the coordinator. -/
def Idle (s : Deployment) : Prop :=
  s.pusher.eventQueue = [] ∧ s.inFlight = none

/-- The controller holds the instance active. -/
def Active (s : Deployment) (id : InstanceId) : Prop :=
  ∃ i, s.controller.instances.get? id = some i ∧ i.status = .active

/-- The coordinator routes to it. -/
def Routable (s : Deployment) (id : InstanceId) : Prop :=
  s.coordinator.availablePool.contains id = true

end Deployment

end PyMotor.Controller
