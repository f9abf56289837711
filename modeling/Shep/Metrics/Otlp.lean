import Shep.Metrics.Model

/-!
# Metrics — the OTLP payload

`otlp/encode.rs` with its `payload.rs` and `samples.rs`: a reading as the
structure that is serialized as an `ExportMetricsServiceRequest`. A number
of nanoseconds is its value; that it is written as a decimal string belongs
to the serializer, as does the spelling of every field.
-/

namespace Shep

namespace Metrics

open Bark (ProcStatus)

/-! ## Numbers -/

def F32.isFinite (x : F32) : Bool := x.exponent ≠ 255

/-- `f64::from`, of an `f32`. -/
def F32.toF64 (x : F32) : F64 :=
  if x.exponent = 255 then ⟨x.negative, 2047, Fin.ofNat _ (x.fraction.val * 2 ^ 29)⟩
  else if x.exponent ≠ 0 then
    ⟨x.negative, Fin.ofNat _ (x.exponent.val + 896), Fin.ofNat _ (x.fraction.val * 2 ^ 29)⟩
  else if x.fraction = 0 then ⟨x.negative, 0, 0⟩
  else
    -- a subnormal `f32` is a normal `f64`
    let k := Nat.log2 x.fraction.val
    ⟨x.negative, Fin.ofNat _ (k + 874), Fin.ofNat _ (x.fraction.val * 2 ^ (52 - k) - 2 ^ 52)⟩

/-! ## A reading -/

/-- `HostReading`. -/
structure HostReading where
  memoryTotalBytes : ℕ
  memoryUsedBytes : ℕ
  processes : ℕ
  uptimeSeconds : ℕ
  deriving Repr, DecidableEq

/-- `Reading`. -/
structure Reading where
  flock : List ProcessInfo
  daemonVersion : Text
  daemonPid : ℕ
  host : Option HostReading
  samples : List SampleFamily
  deriving Repr, DecidableEq

/-- `ALL_STATUSES`. -/
def ALL_STATUSES : List ProcStatus :=
  [.starting, .online, .stopping, .stopped, .errored, .waitingRestart]

/-- `status_label`. -/
def statusLabel : ProcStatus → Text
  | .starting => "starting".toList
  | .online => "online".toList
  | .stopping => "stopping".toList
  | .stopped => "stopped".toList
  | .errored => "errored".toList
  | .waitingRestart => "waiting-restart".toList
  | .unrecognized => "unrecognized".toList

/-! ## The payload -/

def TEMPORALITY_CUMULATIVE : ℕ := 2

/-- `DataPoint`. -/
structure DataPoint where
  attributes : List Label
  startTimeUnixNano : Option ℕ
  timeUnixNano : ℕ
  asInt : Option ℕ
  asDouble : Option F64
  deriving Repr, DecidableEq

/-- `Sum`. -/
structure Sum where
  dataPoints : List DataPoint
  aggregationTemporality : ℕ
  isMonotonic : Bool
  deriving Repr, DecidableEq

/-- `Metric`. -/
structure Metric where
  name : Text
  description : Option Text
  gauge : Option (List DataPoint)
  sum : Option Sum
  deriving Repr, DecidableEq

/-- `ExportRequest`, of its one resource and its one scope. -/
structure ExportRequest where
  resource : List Label
  scopeName : Text
  scopeVersion : Text
  metrics : List Metric
  deriving Repr, DecidableEq

/-- `gauge_point`. -/
def gaugePoint (attributes : List Label) (now value : ℕ) : DataPoint :=
  ⟨attributes, none, now, some value, none⟩

/-- `double_point`. -/
def doublePoint (attributes : List Label) (now : ℕ) (value : F64) : DataPoint :=
  ⟨attributes, none, now, none, some value⟩

/-- `cumulative_point`. -/
def cumulativePoint (attributes : List Label) (start now value : ℕ) : DataPoint :=
  ⟨attributes, some start, now, some value, none⟩

/-- `cumulative_double_point`. -/
def cumulativeDoublePoint (attributes : List Label) (start now : ℕ) (value : F64) : DataPoint :=
  ⟨attributes, some start, now, none, some value⟩

/-- `cumulative_count_point`; the cast takes what is below zero to zero. -/
def cumulativeCountPoint (attributes : List Label) (start now : ℕ) (value : F64) : DataPoint :=
  ⟨attributes, some start, now, some value.toU64, none⟩

/-- `gauge`. -/
def gauge (name : Text) (description : Option Text) (dataPoints : List DataPoint) : Option Metric :=
  if dataPoints.isEmpty then none else some ⟨name, description, some dataPoints, none⟩

/-- `cumulative_sum`. -/
def cumulativeSum (name : Text) (description : Option Text) (dataPoints : List DataPoint) :
    Option Metric :=
  if dataPoints.isEmpty then none
  else some ⟨name, description, none, some ⟨dataPoints, TEMPORALITY_CUMULATIVE, true⟩⟩

/-! ## The samples -/

def NANOS_PER_SECOND : ℕ := 1000000000

/-- `u64::saturating_mul`. -/
def saturatingMul (a b : ℕ) : ℕ := min (a * b) (2 ^ 64 - 1)

/-- `instance_start`. -/
def instanceStart (info : ProcessInfo) (now : ℕ) : ℕ :=
  (now - saturatingMul info.uptimeMs 1000000) / NANOS_PER_SECOND * NANOS_PER_SECOND

/-- `SenderStart`. -/
structure SenderStart where
  owned : List Label
  start : ℕ
  deriving Repr, DecidableEq

/-- `sender_starts`. -/
def senderStarts (flock : List ProcessInfo) (now : ℕ) : List SenderStart :=
  flock.map fun info => ⟨senderLabels info, instanceStart info now⟩

/-- `sender_start`. -/
def senderStart (labels : List Label) (starts : List SenderStart) : Option ℕ :=
  (starts.find? fun sender => sender.owned.isPrefixOf labels).map SenderStart.start

/-- `finite`. -/
def finite (points : List SamplePoint) : List SamplePoint :=
  points.filter fun point => point.value.isFinite

/-- A counter's point, with the start of the sender its labels name. -/
def counterPoint (starts : List SenderStart) (exporterStart now : ℕ) (name : Text)
    (point : SamplePoint) : DataPoint :=
  let start := (senderStart point.labels starts).getD exporterStart
  if name = REFUSED_TOTAL then cumulativeCountPoint point.labels start now point.value
  else cumulativeDoublePoint point.labels start now point.value

/-- `sample_metrics`. -/
def sampleMetrics (samples : List SampleFamily) (flock : List ProcessInfo)
    (exporterStart now : ℕ) : List Metric :=
  let starts := senderStarts flock now
  samples.filterMap fun family =>
    match family.kind with
    | .gauge =>
      gauge family.name family.help
        ((finite family.points).map fun point => doublePoint point.labels now point.value)
    | .counter =>
      cumulativeSum family.name family.help
        ((finite family.points).map (counterPoint starts exporterStart now family.name))

/-! ## The built-in series -/

/-- `ExportContext`. -/
structure ExportContext where
  nowUnixNano : ℕ
  exporterStartUnixNano : ℕ
  hostName : Option Text
  deriving Repr, DecidableEq

/-- A truth value, as a `u64`. -/
def flag (b : Bool) : ℕ := if b then 1 else 0

/-- A sheep's attributes. -/
def sheepLabels (info : ProcessInfo) : List Label :=
  [("sheep".toList, info.name), ("id".toList, decimal info.id), ("fold".toList, info.fold.getD [])]

/-- The rows of the listing that are dogs not parked, each with its source. -/
def dogRows (flock : List ProcessInfo) : List (ProcessInfo × DogSource) :=
  flock.filterMap fun info =>
    info.dog.bind fun source => if info.disabled = some true then none else some (info, source)

/-- The rows of the listing that are sheep. -/
def sheepRows (flock : List ProcessInfo) : List ProcessInfo :=
  flock.filter fun info => info.dog.isNone

/-- `metrics[]` of the built-in series, a group at a time. -/
def builtInMetrics (reading : Reading) (start now : ℕ) : List (Option Metric) :=
  let sheep := sheepRows reading.flock
  let cpu := sheep.filterMap fun info =>
    (info.cpuPercent.filter F32.isFinite).map fun percent =>
      doublePoint (sheepLabels info) now percent.toF64
  let memory := sheep.filterMap fun info =>
    info.memoryBytes.map fun bytes => gaugePoint (sheepLabels info) now bytes
  let restarts := sheep.map fun info => cumulativePoint (sheepLabels info) start now info.restarts
  let uptime := sheep.map fun info => gaugePoint (sheepLabels info) now (info.uptimeMs / 1000)
  let status := sheep.flatMap fun info => ALL_STATUSES.map fun candidate =>
    gaugePoint (sheepLabels info ++ [("status".toList, statusLabel candidate)]) now
      (flag (info.status = candidate))
  let dogUp := (dogRows reading.flock).map fun row =>
    gaugePoint [("dog".toList, row.1.name), ("source".toList, row.2.text)] now
      (flag (row.1.status = .online))
  let daemonUp := gaugePoint [("version".toList, reading.daemonVersion)] now 1
  let daemonPid := gaugePoint [] now reading.daemonPid
  [gauge "shep_sheep_cpu_percent".toList
      (some "Tree CPU as a percentage of one core, over the last sampling window.".toList) cpu,
    gauge "shep_sheep_memory_bytes".toList (some "Tree resident set size in bytes.".toList) memory,
    cumulativeSum "shep_sheep_restart_total".toList
      (some "Restart count since registration or the last `shep reset`.".toList) restarts,
    gauge "shep_sheep_uptime_seconds".toList
      (some "Seconds since this sheep's last successful start.".toList) uptime,
    gauge "shep_sheep_status".toList
      (some "1 for the status this sheep is currently in, 0 for every other status.".toList) status,
    gauge "shep_dog_up".toList (some "1 when this dog is online, 0 otherwise.".toList) dogUp,
    gauge "shep_daemon_up".toList (some "Always 1: the scrape reached the shepherd.".toList)
      [daemonUp],
    gauge "shep_daemon_pid".toList
      (some "The shepherd's own pid, so a restart is visible as a step change.".toList) [daemonPid]]

/-- `metrics[]` of the host's series. -/
def hostMetrics (host : HostReading) (now : ℕ) : List (Option Metric) :=
  [gauge "shep_host_memory_total_bytes".toList (some "Total physical memory on the host.".toList)
      [gaugePoint [] now host.memoryTotalBytes],
    gauge "shep_host_memory_used_bytes".toList
      (some "Memory in use on the host, as the platform reports it.".toList)
      [gaugePoint [] now host.memoryUsedBytes],
    gauge "shep_host_processes".toList
      (some "Number of processes running on the host, the flock included.".toList)
      [gaugePoint [] now host.processes],
    gauge "shep_host_uptime_seconds".toList (some "Seconds since the host booted.".toList)
      [gaugePoint [] now host.uptimeSeconds]]

def SERVICE_NAME : Text := "shep".toList

def SCOPE_NAME : Text := "shep.metrics".toList

/-- `encode`, before it is serialized. -/
def encode (reading : Reading) (context : ExportContext) : ExportRequest where
  resource :=
    [("service.name".toList, SERVICE_NAME),
      ("service.version".toList, reading.daemonVersion)] ++
    (context.hostName.map fun host => ("host.name".toList, host)).toList
  scopeName := SCOPE_NAME
  scopeVersion := reading.daemonVersion
  metrics :=
    (builtInMetrics reading context.exporterStartUnixNano context.nowUnixNano).filterMap id ++
    (reading.host.elim [] fun host => (hostMetrics host context.nowUnixNano).filterMap id) ++
    sampleMetrics reading.samples reading.flock context.exporterStartUnixNano context.nowUnixNano

end Metrics

end Shep
