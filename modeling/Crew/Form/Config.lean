import Crew.Config.Basic
import Crew.Json.Record

/-!
# The written form of configurations

A configuration is a record of sections, each a record of settings. Whatever is left out has its
default.
-/

namespace Crew

open Json

namespace LoggingConfig

def toJson (c : LoggingConfig) : Json :=
  .object [("enabled", .bool c.enabled), ("console", .bool c.console), ("file", .bool c.file),
    ("level", .string c.level), ("directory", Json.ofOption .string c.directory)]

def shape : RecordShape where
  title := "struct LoggingConfig"
  fields := ["enabled", "console", "file", "level", "directory"]

def read (m : Members) : Positioned LoggingConfig :=
  let d : LoggingConfig := {}
  LoggingConfig.mk <$> m.optional "enabled" .bool d.enabled <*>
    m.optional "console" .bool d.console <*> m.optional "file" .bool d.file <*>
    m.optional "level" .string d.level <*>
    m.optional "directory" Decoder.string.option d.directory

end LoggingConfig

namespace ExecutionConfig

def toJson (c : ExecutionConfig) : Json :=
  .object [("max_concurrency", Json.ofOption .nat c.maxConcurrency),
    ("per_worker_concurrency", .nat c.perWorkerConcurrency),
    ("poll_interval_ms", .nat c.pollInterval),
    ("unavailable_timeout_ms", .nat c.unavailableTimeout),
    ("critical_redundancy", .nat c.criticalRedundancy),
    ("retry_on_different_worker", .bool c.retryOnDifferentWorker)]

def shape : RecordShape where
  title := "struct ExecutionConfig"
  fields := ["max_concurrency", "per_worker_concurrency", "poll_interval_ms",
    "unavailable_timeout_ms", "critical_redundancy", "retry_on_different_worker"]

def read (m : Members) : Positioned ExecutionConfig :=
  let d : ExecutionConfig := {}
  ExecutionConfig.mk <$>
    m.optional "max_concurrency" Decoder.usize.option d.maxConcurrency <*>
    m.optional "per_worker_concurrency" .usize d.perWorkerConcurrency <*>
    m.optional "poll_interval_ms" .u64 d.pollInterval <*>
    m.optional "unavailable_timeout_ms" .u64 d.unavailableTimeout <*>
    m.optional "critical_redundancy" .u32 d.criticalRedundancy <*>
    m.optional "retry_on_different_worker" .bool d.retryOnDifferentWorker

end ExecutionConfig

namespace RetryConfig

def toJson (c : RetryConfig) : Json :=
  .object [("strategy", .string c.strategy), ("base_delay_ms", .nat c.baseDelay),
    ("max_delay_ms", .nat c.maxDelay)]

def shape : RecordShape where
  title := "struct RetryConfig"
  fields := ["strategy", "base_delay_ms", "max_delay_ms"]

def read (m : Members) : Positioned RetryConfig :=
  let d : RetryConfig := {}
  RetryConfig.mk <$> m.optional "strategy" .string d.strategy <*>
    m.optional "base_delay_ms" .u64 d.baseDelay <*> m.optional "max_delay_ms" .u64 d.maxDelay

end RetryConfig

namespace ConcurrencyConfig

def toJson (c : ConcurrencyConfig) : Json :=
  .object [("strategy", .string c.strategy), ("fixed", .nat c.fixed),
    ("min_concurrency", .nat c.minConcurrency), ("max_concurrency", .nat c.maxConcurrency)]

def shape : RecordShape where
  title := "struct ConcurrencyConfig"
  fields := ["strategy", "fixed", "min_concurrency", "max_concurrency"]

def read (m : Members) : Positioned ConcurrencyConfig :=
  let d : ConcurrencyConfig := {}
  ConcurrencyConfig.mk <$> m.optional "strategy" .string d.strategy <*>
    m.optional "fixed" .usize d.fixed <*>
    m.optional "min_concurrency" .usize d.minConcurrency <*>
    m.optional "max_concurrency" .usize d.maxConcurrency

end ConcurrencyConfig

namespace CircuitConfig

def toJson (c : CircuitConfig) : Json :=
  .object [("failure_threshold", .nat c.failureThreshold), ("cooldown_ms", .nat c.cooldown)]

def shape : RecordShape where
  title := "struct CircuitConfig"
  fields := ["failure_threshold", "cooldown_ms"]

def read (m : Members) : Positioned CircuitConfig :=
  let d : CircuitConfig := {}
  CircuitConfig.mk <$> m.optional "failure_threshold" .u32 d.failureThreshold <*>
    m.optional "cooldown_ms" .u64 d.cooldown

end CircuitConfig

namespace ScalingConfig

def toJson (c : ScalingConfig) : Json :=
  .object [("enabled", .bool c.enabled), ("high_watermark", .real c.highWatermark),
    ("low_watermark", .real c.lowWatermark), ("debounce_ms", .nat c.debounce)]

def shape : RecordShape where
  title := "struct ScalingConfig"
  fields := ["enabled", "high_watermark", "low_watermark", "debounce_ms"]

def read (m : Members) : Positioned ScalingConfig :=
  let d : ScalingConfig := {}
  ScalingConfig.mk <$> m.optional "enabled" .bool d.enabled <*>
    m.optional "high_watermark" .f64 d.highWatermark <*>
    m.optional "low_watermark" .f64 d.lowWatermark <*>
    m.optional "debounce_ms" .u64 d.debounce

end ScalingConfig

namespace EventsConfig

def toJson (c : EventsConfig) : Json :=
  .object [("channel_capacity", .nat c.channelCapacity)]

def shape : RecordShape where
  title := "struct EventsConfig"
  fields := ["channel_capacity"]

def read (m : Members) : Positioned EventsConfig :=
  let d : EventsConfig := {}
  EventsConfig.mk <$> m.optional "channel_capacity" .usize d.channelCapacity

end EventsConfig

namespace Config

def toJson (c : Config) : Json :=
  .object [("logging", c.logging.toJson), ("execution", c.execution.toJson),
    ("retry", c.retry.toJson), ("concurrency", c.concurrency.toJson),
    ("circuit", c.circuit.toJson), ("scaling", c.scaling.toJson), ("events", c.events.toJson)]

def shape : RecordShape where
  title := "struct SwarmConfig"
  fields := ["logging", "execution", "retry", "concurrency", "circuit", "scaling", "events"]

def read (m : Members) : Positioned Config :=
  Config.mk <$>
    m.optional "logging" (LoggingConfig.shape.decoder LoggingConfig.read) {} <*>
    m.optional "execution" (ExecutionConfig.shape.decoder ExecutionConfig.read) {} <*>
    m.optional "retry" (RetryConfig.shape.decoder RetryConfig.read) {} <*>
    m.optional "concurrency" (ConcurrencyConfig.shape.decoder ConcurrencyConfig.read) {} <*>
    m.optional "circuit" (CircuitConfig.shape.decoder CircuitConfig.read) {} <*>
    m.optional "scaling" (ScalingConfig.shape.decoder ScalingConfig.read) {} <*>
    m.optional "events" (EventsConfig.shape.decoder EventsConfig.read) {}

def decoder : Decoder Config := shape.decoder read

end Config

end Crew
