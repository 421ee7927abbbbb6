import Mathlib.Algebra.Order.Field.Rat
import PyMotor.Coordinator.Instance
import PyMotor.Lib.Run

/-!
# The counters of the service

The coordinator collects the metrics of all engines in rounds and adds them up to a view of the service
(`coordinator/metrics/metrics_collector.py`, `metric_computer.py`, `aggregation_engine.py`). The last
metrics of an instance are cached. When the instance becomes unavailable they move into a history for
its role. Two counters are inherited instead: an engine that takes another one's place goes on from where
that one was, and the history does not keep them.

Only counters are part of the model, the families whose values are summed. Values are floating-point
numbers in the program and rationals here.
-/

namespace PyMotor.Coordinator

/-- A family of samples, each with its label. -/
structure Metric where
  name : String
  samples : List (String × ℚ)
  deriving DecidableEq

namespace Metric

def total (m : Metric) : ℚ := (m.samples.map Prod.snd).sum

/-- `value[i] += amount`, for every sample. -/
def shift (m : Metric) (amount : ℚ) : Metric :=
  { m with samples := m.samples.map fun p => (p.1, p.2 + amount) }

def zero (m : Metric) : Metric :=
  { m with samples := m.samples.map fun p => (p.1, 0) }

end Metric

/-! ## Aggregation -/

/-- Add a sample to what its label has so far. -/
def addSample (result : Dict String ℚ) (p : String × ℚ) : Dict String ℚ :=
  result.insert p.1 ((result.get? p.1).getD 0 + p.2)

/-- One family from several, label by label. -/
def aggregateReduce (name : String) (ms : List Metric) : Metric where
  name := name
  samples := ((ms.flatMap Metric.samples).foldl addSample ∅).entries

def addByName (groups : Dict String (List Metric)) (m : Metric) : Dict String (List Metric) :=
  groups.insert m.name ((groups.get? m.name).getD [] ++ [m])

def aggregateMetrics (lists : List (List Metric)) : List Metric :=
  (lists.flatten.foldl addByName ∅).entries.map fun p => aggregateReduce p.1 p.2

/-! ## Counters that are inherited -/

/-- The counters that a rate is computed from. -/
def inheritedMetricNames : List String :=
  ["vllm:prompt_tokens_total", "vllm:generation_tokens_total"]

/-- What is known of a counter of a job at a rank, over all engines that had the place. -/
structure DpState where
  baseline : ℚ
  lastEffective : ℚ
  lastRaw : ℚ
  lastInsId : InstanceId
  deriving DecidableEq

/-- Whether another engine answers than last time. -/
def DpState.restarted (state : DpState) (rawCounter : ℚ) (insId : InstanceId) : Bool :=
  decide (insId ≠ state.lastInsId) || decide (rawCounter < state.lastRaw * (9 / 10))

/-- The effective value is `lastEffective` of the new state. -/
def computeEffective (state : Option DpState) (rawCounter : ℚ) (insId : InstanceId) : DpState :=
  match state with
  | none => ⟨0, rawCounter, rawCounter, insId⟩
  | some state =>
    let state :=
      if state.restarted rawCounter insId then
        { state with baseline := state.lastEffective, lastInsId := insId }
      else state
    { state with lastEffective := rawCounter + state.baseline, lastRaw := rawCounter }

/-- Correct the first family of the name; `none` is the division by the number of its samples, if it
has none. -/
def correctMetric (src : String) (state : Option DpState) (insId : InstanceId) :
    List Metric → Option (Option DpState × List Metric)
  | [] => some (state, [])
  | m :: ms =>
    if m.name = src then
      let state := computeEffective state m.total insId
      let offset := state.lastEffective - m.total
      if offset = 0 then some (some state, m :: ms)
      else if m.samples = [] then none
      else some (some state, m.shift (offset / m.samples.length) :: ms)
    else (correctMetric src state insId ms).map fun r => (r.1, m :: r.2)

abbrev DpKey := String × EndpointId × String

/-- What was collected of an instance: the metrics of each of its engines. -/
structure Collect where
  jobName : String
  endpoints : Dict EndpointId (List Metric)

/-- The states of the ranks, and the metrics as they are corrected. -/
structure Corrections where
  dpState : Dict DpKey DpState
  collects : Dict InstanceId Collect

namespace Corrections

def setEndpoint (c : Corrections) (insId : InstanceId) (ins : Collect) (epId : EndpointId)
    (dpState : Dict DpKey DpState) (metrics : List Metric) : Corrections where
  dpState := dpState
  collects := c.collects.insert insId { ins with endpoints := ins.endpoints.insert epId metrics }

def correctEndpoint (src : String) (c : Corrections) (insId : InstanceId) (epId : EndpointId) :
    Option Corrections :=
  match c.collects.get? insId with
  | none => some c
  | some ins =>
    if ins.jobName = "" then some c
    else
      match ins.endpoints.get? epId with
      | none => some c
      | some metrics =>
        let key := (ins.jobName, epId, src)
        (correctMetric src (c.dpState.get? key) insId metrics).map fun r =>
          c.setEndpoint insId ins epId
            (match r.1 with
              | none => c.dpState
              | some state => c.dpState.insert key state) r.2

end Corrections

/-- All engines, in the order in which they were collected. -/
def engines (collects : Dict InstanceId Collect) : List (InstanceId × EndpointId) :=
  collects.entries.flatMap fun p => p.2.endpoints.keys.map fun epId => (p.1, epId)

def computeCounterRates (c : Corrections) (src : String) : Option Corrections :=
  (engines c.collects).foldlM (fun c p => c.correctEndpoint src p.1 p.2) c

def computePreAggregation (c : Corrections) : Option Corrections :=
  inheritedMetricNames.foldlM computeCounterRates c

/-! ## The collector -/

structure MetricsCollector where
  /-- By role. -/
  inactiveInstanceMetricsAggregate : Dict String (List Metric)
  instanceMetricsCached : Dict InstanceId (List Metric)
  dpState : Dict DpKey DpState
  /-- The view of the service that was generated last. -/
  fullMetrics : List Metric
  /-- What each engine has reported last, uncorrected. -/
  observed : Dict InstanceId (Dict EndpointId (List Metric))

/-- A collection round. -/
structure Round where
  /-- The roles of the instances that are unavailable. -/
  unavailablePool : Dict InstanceId String
  /-- The answers of those that are available, unless one of them cannot be parsed. -/
  collects : Option (Dict InstanceId Collect)

namespace MetricsCollector

def new : MetricsCollector := ⟨∅, ∅, ∅, [], ∅⟩

/-- What the history takes over from an instance. -/
def retired (ms : List Metric) : List Metric :=
  ms.map fun m => if m.name ∈ inheritedMetricNames then m.zero else m

/-- The lists that are cleared, by role. -/
def addByRole (groups : Dict String (List (List Metric))) (p : String × List Metric) :
    Dict String (List (List Metric)) :=
  groups.insert p.1 ((groups.get? p.1).getD [] ++ [p.2])

def addHistory (history : Dict String (List Metric)) (p : String × List (List Metric)) :
    Dict String (List Metric) :=
  let existing := (history.get? p.1).getD []
  history.insert p.1 (aggregateMetrics (if existing = [] then p.2 else p.2 ++ [existing]))

def clearInactiveMetrics (s : MetricsCollector) (unavailablePool : Dict InstanceId String) :
    MetricsCollector :=
  let cleared := unavailablePool.entries.filterMap fun p =>
    (s.instanceMetricsCached.get? p.1).map fun ms => (p.2, retired ms)
  { s with
    inactiveInstanceMetricsAggregate :=
      (cleared.foldl addByRole ∅).entries.foldl addHistory s.inactiveInstanceMetricsAggregate
    instanceMetricsCached := s.instanceMetricsCached.filter fun id _ => !unavailablePool.contains id }

def aggregateCollectsByInstance (collects : Dict InstanceId Collect) : Dict InstanceId (List Metric) :=
  collects.filterMap fun _ ins =>
    if ins.endpoints.isEmpty then none else some (aggregateMetrics ins.endpoints.values)

def aggregateMetricsAllInstance (s : MetricsCollector) : List Metric :=
  aggregateMetrics
    (s.instanceMetricsCached.values ++ [s.inactiveInstanceMetricsAggregate.values.flatten])

/-- The cache is filled here and not when the metrics are collected. Without instances the view is
empty. -/
def generateFullMetrics (s : MetricsCollector) (collects : Dict InstanceId Collect) :
    MetricsCollector :=
  let instanceMetrics := aggregateCollectsByInstance collects
  if instanceMetrics.isEmpty then { s with fullMetrics := [] }
  else
    let s := { s with
      instanceMetricsCached :=
        instanceMetrics.entries.foldl
          (fun cached (p : InstanceId × List Metric) => cached.insert p.1 p.2) s.instanceMetricsCached }
    { s with fullMetrics := s.aggregateMetricsAllInstance }

/-- What the engines have reported replaces what they reported before. -/
def observe (observed : Dict InstanceId (Dict EndpointId (List Metric)))
    (collects : Dict InstanceId Collect) : Dict InstanceId (Dict EndpointId (List Metric)) :=
  collects.entries.foldl (fun observed (p : InstanceId × Collect) => observed.insert p.1
    (p.2.endpoints.entries.foldl (fun eps q => eps.insert q.1 q.2) ((observed.get? p.1).getD ∅))) observed

/-- An instance without endpoints spoils the round. -/
def parseMetrics (collects : Dict InstanceId Collect) : Option (Dict InstanceId Collect) :=
  if collects.values.any fun ins => ins.endpoints.isEmpty then none else some collects

/-- A round, and the view that is generated after it. A round that is given up leaves the last view in
place, and the division by zero ends the thread that takes the rounds. -/
def exec (s : MetricsCollector) (round : Round) : Option MetricsCollector :=
  let s := s.clearInactiveMetrics round.unavailablePool
  match round.collects.bind parseMetrics with
  | none => some s
  | some collects =>
    (computePreAggregation ⟨s.dpState, collects⟩).map fun c =>
      { s with dpState := c.dpState, observed := observe s.observed collects }.generateFullMetrics
        c.collects

end MetricsCollector

end PyMotor.Coordinator
