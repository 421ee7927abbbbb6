import Mathlib.Algebra.Order.Field.Rat
import PyMotor.Lib.Dict

/-!
# The registry of metrics

What the metrics of the engines mean (`coordinator/metrics/metric_types.py`, `metric_registry.py`). The
semantic of a metric decides how it is aggregated and what is computed from it afterwards. A metric that
is not registered is aggregated by its Prometheus type. More metrics can be registered while the
coordinator runs, so the registry is a value here.
-/

namespace PyMotor.Coordinator

inductive MetricType
  | gauge
  | counter
  | histogram
  | summary
  | none
  deriving DecidableEq

inductive MetricSemantic
  | counter
  | stateGauge
  | queueGauge
  | throughputCounter
  | ratioNumerator
  | ratioDenominator
  | hotspotResourceGauge
  | occupancyMetric
  | resourceUtilizationGauge
  | cacheMetric
  | metadataGauge
  | histogramLatency
  | slaMetric
  deriving DecidableEq

/-- A quantile, and how the program prints it. -/
structure Quantile where
  q : ℚ
  str : String
  deriving DecidableEq

structure MetricSemanticConfig where
  semantic : MetricSemantic
  /-- `metadata.get("quantiles")` -/
  quantiles : Option (List Quantile)
  deriving DecidableEq

abbrev MetricRegistry := Dict String MetricSemanticConfig

def p50p95p99 : List Quantile := [⟨1 / 2, "0.5"⟩, ⟨95 / 100, "0.95"⟩, ⟨99 / 100, "0.99"⟩]

def vllmMetricTable : List (String × MetricSemanticConfig) :=
  [("vllm:time_to_first_token_seconds", ⟨.slaMetric, some p50p95p99⟩),
    ("vllm:time_per_output_token_seconds", ⟨.slaMetric, some p50p95p99⟩),
    ("vllm:e2e_request_latency_seconds", ⟨.histogramLatency, some p50p95p99⟩),
    ("vllm:request_queue_time_seconds", ⟨.histogramLatency, some p50p95p99⟩),
    ("vllm:request_prefill_time_seconds", ⟨.histogramLatency, none⟩),
    ("vllm:request_decode_time_seconds", ⟨.histogramLatency, none⟩),
    ("vllm:request_params_n", ⟨.histogramLatency, none⟩),
    ("vllm:request_params_max_tokens", ⟨.histogramLatency, none⟩),
    ("vllm:num_requests_waiting", ⟨.queueGauge, none⟩),
    ("vllm:num_requests_running", ⟨.stateGauge, none⟩),
    ("vllm:num_requests_swapped", ⟨.stateGauge, none⟩),
    ("vllm:kv_cache_usage_perc", ⟨.cacheMetric, none⟩),
    ("vllm:gpu_cache_usage_perc", ⟨.cacheMetric, none⟩),
    ("vllm:cpu_cache_usage_perc", ⟨.cacheMetric, none⟩),
    ("vllm:prefix_cache_queries_total", ⟨.ratioDenominator, none⟩),
    ("vllm:prefix_cache_hits_total", ⟨.ratioNumerator, none⟩),
    ("vllm:gpu_prefix_cache_queries_total", ⟨.ratioDenominator, none⟩),
    ("vllm:gpu_prefix_cache_hits_total", ⟨.ratioNumerator, none⟩),
    ("vllm:prompt_tokens_total", ⟨.throughputCounter, none⟩),
    ("vllm:generation_tokens_total", ⟨.throughputCounter, none⟩),
    ("vllm:new_tokens_total", ⟨.throughputCounter, none⟩),
    ("vllm:request_success_total", ⟨.counter, none⟩),
    ("vllm:num_preemptions_total", ⟨.counter, none⟩),
    ("vllm:num_requests_running_max", ⟨.hotspotResourceGauge, none⟩),
    ("vllm:kv_cache_usage_perc_max", ⟨.hotspotResourceGauge, none⟩),
    ("process_virtual_memory_bytes", ⟨.resourceUtilizationGauge, none⟩),
    ("process_resident_memory_bytes", ⟨.resourceUtilizationGauge, none⟩),
    ("process_open_fds", ⟨.stateGauge, none⟩),
    ("process_max_fds", ⟨.metadataGauge, none⟩),
    ("process_cpu_seconds_total", ⟨.counter, none⟩),
    ("process_start_time_seconds", ⟨.metadataGauge, none⟩),
    ("python_info", ⟨.metadataGauge, none⟩),
    ("python_gc_objects_collected_total", ⟨.counter, none⟩),
    ("python_gc_objects_uncollectable_total", ⟨.counter, none⟩),
    ("python_gc_collections_total", ⟨.counter, none⟩),
    ("motor:active_prefill_workers", ⟨.metadataGauge, none⟩),
    ("motor:active_decode_workers", ⟨.metadataGauge, none⟩),
    ("motor:inactive_prefill_workers", ⟨.metadataGauge, none⟩),
    ("motor:inactive_decode_workers", ⟨.metadataGauge, none⟩),
    ("motor:prompt_tokens_per_second", ⟨.metadataGauge, none⟩),
    ("motor:generation_tokens_per_second", ⟨.metadataGauge, none⟩)]

def vllmMetricRegistry : MetricRegistry :=
  vllmMetricTable.foldl (fun registry p => registry.insert p.1 p.2) ∅

/-- Timestamps, which are never summed. -/
def isCreatedMetric (metricName : String) : Bool :=
  "_created".toList.isSuffixOf metricName.toList

def getSemantic (registry : MetricRegistry) (metricName : String) : Option MetricSemanticConfig :=
  if isCreatedMetric metricName then some ⟨.metadataGauge, none⟩ else registry.get? metricName

end PyMotor.Coordinator
