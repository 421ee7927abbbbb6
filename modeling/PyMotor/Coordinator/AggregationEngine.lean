import PyMotor.Coordinator.AggregationEngine.LabelText
import PyMotor.Coordinator.MetricRegistry
import PyMotor.Coordinator.MetricsCollector
import PyMotor.Lib.Reduce

/-!
# The aggregation of metrics

One engine aggregates the metrics of the endpoints of an instance, and those of the instances of a role,
of a node or of the service (`coordinator/metrics/aggregation_engine.py`). How the values of a label are
put together depends on the semantic of the metric. Of an aggregated histogram the means and quantiles
are computed.

Values are floating-point numbers in the program and rationals here; `none` is an error that is raised.
-/

namespace PyMotor.Coordinator

/-- A family of samples, with its help text and its type. -/
structure TypedMetric extends Metric where
  help : String
  type : MetricType
  deriving DecidableEq

/-- A computed value. -/
structure Gauge where
  name : String
  help : String
  label : String
  /-- Nothing is `nan`. -/
  value : Option (WithTop ℚ)

namespace SemanticAggregationEngine

/-! ## Label by label -/

/-- What two values are reduced to, and where the reduction begins. -/
structure ReduceSpec where
  reduceFn : ℚ → ℚ → ℚ
  /-- Nothing is `float("-inf")`. -/
  initial : Option ℚ

namespace ReduceSpec

/-- `reduce_fn(result.get(label, initial), value)` -/
def step (spec : ReduceSpec) (cur : Option ℚ) (value : ℚ) : ℚ :=
  match cur.or spec.initial with
  | some a => spec.reduceFn a value
  -- `value` is not less than `float("-inf")`, and only a maximum begins there
  | none => value

def sum : ReduceSpec := ⟨fun a b => a + b, some 0⟩

def max : ReduceSpec := ⟨fun a b => if a > b then a else b, none⟩

end ReduceSpec

/-- `_REDUCE_MAP` -/
def reduceMap : MetricSemantic → Option ReduceSpec
  | .counter | .stateGauge | .queueGauge | .throughputCounter | .ratioNumerator | .ratioDenominator =>
    some .sum
  | .hotspotResourceGauge | .occupancyMetric => some .max
  | .resourceUtilizationGauge | .cacheMetric | .metadataGauge | .histogramLatency | .slaMetric => none

/-- All samples of several metrics, in turn. -/
def samplesOf (metricList : List TypedMetric) : List (String × ℚ) :=
  metricList.flatMap fun m => m.samples

def aggregateReduce (first : TypedMetric) (metricList : List TypedMetric) (spec : ReduceSpec) :
    TypedMetric :=
  { first with samples := ((samplesOf metricList).foldl (gatherStep spec.step) ∅).entries }

def meanFromReduce (first : TypedMetric) (metricList : List TypedMetric) : TypedMetric :=
  let result := aggregateReduce first metricList .sum
  let n := metricList.length
  if 1 < n then { result with samples := result.samples.map fun p => (p.1, p.2 / n) } else result

/-! ## Histograms -/

def isBucketLabel (label : String) : Bool := decide ("_bucket\x7b".toList <:+: label.toList)

/-- The label of the number of values or of their sum, for the suffix. -/
def isSuffixLabel (suffix label : String) : Bool :=
  decide (suffix.toList ++ ['\x7b'] <:+: label.toList) || suffix.toList.isSuffixOf label.toList

/-- The samples of several histograms, added up. -/
structure HistogramParts where
  buckets : Dict String ℚ
  counts : Dict String ℚ
  sums : Dict String ℚ

namespace HistogramParts

def add (parts : HistogramParts) (p : String × ℚ) : HistogramParts :=
  if isBucketLabel p.1 then { parts with buckets := gatherStep ReduceSpec.sum.step parts.buckets p }
  else if isSuffixLabel "_count" p.1 then
    { parts with counts := gatherStep ReduceSpec.sum.step parts.counts p }
  else if isSuffixLabel "_sum" p.1 then
    { parts with sums := gatherStep ReduceSpec.sum.step parts.sums p }
  else parts

def value (parts : HistogramParts) (label : String) : ℚ :=
  (((parts.buckets.get? label).or (parts.counts.get? label)).or (parts.sums.get? label)).getD 0

end HistogramParts

variable (table : CharTable)

/-- `_le_val` -/
def leVal (label : String) : Option (WithTop ℚ) :=
  match searchLe label.toList with
  | none => some ⊤
  | some s => upperBound table s

/-- Labels in the order of their bounds. -/
def sortByLe (labels : List String) : Option (List String) :=
  (labels.mapM fun label => (leVal table label).map fun le => (le, label)).map fun keyed =>
    (keyed.insertionSort fun a b => a.1 ≤ b.1).map Prod.snd

def aggregateHistogramMerge (first : TypedMetric) (metricList : List TypedMetric) :
    Option TypedMetric :=
  let parts := (samplesOf metricList).foldl HistogramParts.add ⟨∅, ∅, ∅⟩
  (sortByLe table parts.buckets.keys).map fun bucketOrder =>
    let newLabels := bucketOrder ++ parts.counts.keys ++ parts.sums.keys
    { first with samples := newLabels.map fun label => (label, parts.value label) }

/-! ## By semantic -/

def aggregate (registry : MetricRegistry) (metricName : String) (metricList : List TypedMetric) :
    Option TypedMetric :=
  match metricList with
  | [] => some ⟨⟨"", []⟩, "", .none⟩
  | first :: _ =>
    let byType :=
      if first.type = .histogram then aggregateHistogramMerge table first metricList
      else some (aggregateReduce first metricList .sum)
    match getSemantic registry metricName with
    | none => byType
    | some config =>
      match config.semantic with
      | .resourceUtilizationGauge | .cacheMetric => some (meanFromReduce first metricList)
      | .histogramLatency | .slaMetric => aggregateHistogramMerge table first metricList
      | .metadataGauge => some first
      | semantic =>
        match reduceMap semantic with
        | some spec => some (aggregateReduce first metricList spec)
        | none => byType

/-! ## Means and quantiles -/

/-- A bucket: the bound, and how many values are not above it. -/
abbrev Bucket := WithTop ℚ × ℚ

/-- One sample of an aggregated histogram, sorted in with the buckets of its labels. -/
def parseBucket (metricName : String) (groups : Dict (List Char) (List Bucket)) (p : String × ℚ) :
    Option (Dict (List Char) (List Bucket)) :=
  if "_bucket".toList <:+: p.1.toList then
    match searchLe p.1.toList with
    | none => some groups
    | some s =>
      (upperBound table s).map fun upper =>
        let key := histogramLabelGroupKey table p.1.toList metricName.toList
        groups.insert key ((groups.get? key).getD [] ++ [(upper, p.2)])
  else some groups

/-- No groups stand for `None`, which the caller does not tell from them. -/
def parseHistogramBuckets (metric : TypedMetric) : Option (Dict (List Char) (List Bucket)) :=
  if metric.type ≠ .histogram then some ∅
  else (metric.samples.foldlM (parseBucket table metric.name) ∅).map fun groups =>
    groups.mapVal fun _ buckets => buckets.insertionSort fun a b => a.1 ≤ b.1

/-- The loop of `_histogram_quantile`, from a bucket on. -/
def quantileFrom (target : ℚ) : WithTop ℚ → ℚ → List Bucket → Option (WithTop ℚ)
  | _, _, [] => none
  | prevBound, prevCount, (upper, cum) :: buckets =>
    if cum < target then quantileFrom target upper cum buckets
    else
      match upper with
      | ⊤ => some prevBound
      | (upper : ℚ) =>
        if cum = prevCount then some (upper : WithTop ℚ)
        else
          match prevBound with
          -- `inf - inf`
          | ⊤ => none
          | (prevBound : ℚ) =>
            some ((prevBound + (target - prevCount) / (cum - prevCount) * (upper - prevBound) : ℚ) :
              WithTop ℚ)

def histogramQuantile (q : ℚ) (buckets : List Bucket) : Option (WithTop ℚ) :=
  match buckets.getLast? with
  | none => none
  | some last =>
    if q < 0 ∨ 1 < q ∨ last.2 ≤ 0 then none else quantileFrom (q * last.2) (0 : ℚ) 0 buckets

/-- `_sum` and `_count` of the labels, by group. -/
structure GroupTotals where
  sumByGroup : Dict (List Char) ℚ
  countByGroup : Dict (List Char) ℚ

def GroupTotals.add (metricName : String) (totals : GroupTotals) (p : String × ℚ) : GroupTotals :=
  let key := histogramLabelGroupKey table p.1.toList metricName.toList
  if "_sum".toList <:+: p.1.toList then
    { totals with sumByGroup := totals.sumByGroup.insert key p.2 }
  else if "_count".toList <:+: p.1.toList then
    { totals with countByGroup := totals.countByGroup.insert key p.2 }
  else totals

def meanValue (totalSum totalCount : ℚ) : Option (WithTop ℚ) :=
  if 0 < totalCount then some ((totalSum / totalCount : ℚ) : WithTop ℚ) else none

def meanGauge (metricName : String) (baseLabel : List Char) (value : Option (WithTop ℚ)) : Gauge :=
  let meanName := metricName ++ "_mean"
  { name := meanName
    help := "Computed mean from " ++ metricName
    label := if '\x7b' ∈ baseLabel then meanName ++ String.ofList baseLabel else meanName
    value := value }

/-- `int(q * 100)` -/
def percent (q : ℚ) : ℤ := (q * 100).num.tdiv (q * 100).den

def quantileGauge (metricName : String) (baseLabel : List Char) (quantile : Quantile)
    (value : Option (WithTop ℚ)) : Gauge :=
  let qName := metricName ++ "_p" ++ toString (percent quantile.q)
  let qLabel := "\x7bquantile=\"" ++ quantile.str ++ "\""
  { name := qName
    help := "Computed p" ++ toString (percent quantile.q) ++ " quantile from " ++ metricName
    label :=
      if '\x7b' ∈ baseLabel then
        qName ++ String.ofList (baseLabel.flatMap fun c => if c = '\x7b' then qLabel.toList ++ [','] else [c])
      else qName ++ qLabel ++ "\x7d"
    value := value }

/-- What is computed for one group of labels. -/
def gaugesOf (metricName : String) (quantiles : List Quantile) (totals : GroupTotals)
    (baseLabel : List Char) (buckets : List Bucket) : List Gauge :=
  meanGauge metricName baseLabel
      (meanValue ((totals.sumByGroup.get? baseLabel).getD 0) ((totals.countByGroup.get? baseLabel).getD 0)) ::
    quantiles.map fun quantile =>
      quantileGauge metricName baseLabel quantile (histogramQuantile quantile.q buckets)

/-- `_compute_histogram_quantiles` -/
def computeHistogramQuantiles (metric : TypedMetric) (config : MetricSemanticConfig) :
    Option (List Gauge) :=
  (parseHistogramBuckets table metric).map fun bucketsByBase =>
    let totals := metric.samples.foldl (GroupTotals.add table metric.name) ⟨∅, ∅⟩
    bucketsByBase.entries.flatMap fun p =>
      gaugesOf metric.name (config.quantiles.getD p50p95p99) totals p.1 p.2

end SemanticAggregationEngine

end PyMotor.Coordinator
