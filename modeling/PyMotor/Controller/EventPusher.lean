import PyMotor.Controller.InstanceManager
import PyMotor.Coordinator.InstanceManager

/-!
# The event pusher

An observer of the instance manager turns its notifications into events for the coordinator and keeps a
table of the instances it has announced, by job name (`controller/core/event_pusher.py`). A thread
takes the events from a queue and sends them one after the other. A `SET` is queued without its
instances: they are read from the table when its turn comes.
-/

namespace PyMotor.Controller

open Coordinator (EventType)

structure Event where
  eventType : EventType
  instance? : Option Coordinator.Instance

structure InsEventMsg where
  event : EventType
  instances : List Coordinator.Instance

structure EventPusher where
  instances : Dict String Coordinator.Instance
  eventQueue : List Event

namespace EventPusher

def new : EventPusher := ⟨∅, []⟩

def put (p : EventPusher) (eventType : EventType) (ins : Coordinator.Instance) : EventPusher :=
  { p with eventQueue := p.eventQueue ++ [⟨eventType, some ins⟩] }

/-- The instance is announced. -/
def enter (p : EventPusher) (ins : Coordinator.Instance) : EventPusher :=
  { p with instances := p.instances.insert ins.jobName ins }

/-- The instance is no longer announced; nothing happens if it has not been. -/
def withdraw (p : EventPusher) (eventType : EventType) (ins : Coordinator.Instance) : EventPusher :=
  if p.instances.contains ins.jobName then
    { p with instances := p.instances.erase ins.jobName }.put eventType ins
  else p

def update (p : EventPusher) (n : Notification) : EventPusher :=
  let ins := n.ins.toInstance
  match n.event with
  | .instanceReady => (p.enter ins).put .add ins
  | .instanceSeparated => p.withdraw .del ins
  | .instancePaused => p.withdraw .pause ins
  | .instanceResumed => (p.enter ins).put .resume ins
  | .instanceRemoved => p.put .del ins
  | .instanceInitial => p

def pushSet (p : EventPusher) : EventPusher :=
  { p with eventQueue := p.eventQueue ++ [⟨.set, none⟩] }

/-- The message for an event. A `SET` of an empty table is skipped. -/
def eventMsg (p : EventPusher) (e : Event) : Option InsEventMsg :=
  match e.eventType with
  | .set => if p.instances.values.isEmpty then none else some ⟨.set, p.instances.values⟩
  | eventType => some ⟨eventType, e.instance?.toList⟩

end EventPusher

end PyMotor.Controller
