import Shep.Metrics.Rendered

/-!
# Metrics — the series of the payload

The series that an OTLP payload carries are those of the blocks of its
reading whose value is finite, in their order: **`encode_series`**. What is
asked of the samples is `Counts`, that shep's own counter among them holds
counts, since the exporter makes one of it.
-/

namespace Shep

namespace Metrics

open Bark (ProcStatus)

/-! ## Series -/

/-- A series as an exporter carries it. -/
structure Exported where
  name : Text
  kind : Option MetricType
  labels : List Label
  value : Option F64
  deriving Repr, DecidableEq

def Exported.isFinite (e : Exported) : Bool := e.value.any F64.isFinite

/-- The number of a point. -/
def DataPoint.value (p : DataPoint) : Option F64 := p.asDouble.or (p.asInt.map F64.ofU64)

/-- A metric that is a gauge, or that only grows. -/
def Metric.kind (m : Metric) : Option MetricType :=
  if m.gauge.isSome then some .gauge
  else if m.sum.any Sum.isMonotonic then some .counter
  else none

def Metric.series (m : Metric) : List Exported :=
  (m.gauge.getD [] ++ m.sum.elim [] Sum.dataPoints).map fun p =>
    ⟨m.name, m.kind, p.attributes, p.value⟩

/-- The series of a payload. -/
def ExportRequest.series (request : ExportRequest) : List Exported :=
  request.metrics.flatMap Metric.series

/-- The series of a block. -/
def Block.series (b : Block) : List Exported :=
  b.points.map fun p => ⟨b.name, some b.kind, p.labels, some p.value⟩

/-! ## What a reading holds -/

/-- A row of a listing is within its types. -/
structure ProcessInfo.Fits (info : ProcessInfo) : Prop where
  restarts : info.restarts < 2 ^ 32
  uptimeMs : info.uptimeMs < 2 ^ 64
  memoryBytes : ∀ bytes, info.memoryBytes = some bytes → bytes < 2 ^ 64

/-- And so is the host's reading. -/
structure HostReading.Fits (host : HostReading) : Prop where
  memoryTotalBytes : host.memoryTotalBytes < 2 ^ 64
  memoryUsedBytes : host.memoryUsedBytes < 2 ^ 64
  processes : host.processes < 2 ^ 64
  uptimeSeconds : host.uptimeSeconds < 2 ^ 64

/-- Every number of a reading is one of its type. -/
structure Reading.Fits (reading : Reading) : Prop where
  row : ∀ info ∈ reading.flock, info.Fits
  pid : reading.daemonPid < 2 ^ 32
  host : ∀ host, reading.host = some host → host.Fits

theorem Reading.Fits.rows {reading : Reading} (h : reading.Fits) :
    (∀ row ∈ memoryRows reading.flock, row.2 < 2 ^ 64) ∧
      (∀ info ∈ sheepRows reading.flock, info.restarts < 2 ^ 64) ∧
      (∀ info ∈ sheepRows reading.flock, info.uptimeMs / 1000 < 2 ^ 64) ∧
      reading.daemonPid < 2 ^ 64 := by
  have hsheep : ∀ info ∈ sheepRows reading.flock, info.Fits := fun info hin =>
    h.row info (List.mem_of_mem_filter hin)
  refine ⟨fun row hin => ?_, fun info hin => ?_, fun info hin => ?_, h.pid.trans (by decide)⟩
  · obtain ⟨info, hinfo, hrow⟩ := List.mem_filterMap.1 hin
    obtain ⟨bytes, hbytes, rfl⟩ := Option.map_eq_some_iff.1 hrow
    exact (hsheep info hinfo).memoryBytes bytes hbytes
  · exact (hsheep info hin).restarts.trans (by decide)
  · exact (Nat.div_le_self _ _).trans_lt (hsheep info hin).uptimeMs

/-- A family that the exporter makes counts of has counts. -/
def SampleFamily.Counts (family : SampleFamily) : Prop :=
  family.name = REFUSED_TOTAL → ∀ p ∈ family.points, ∃ n, n < 2 ^ 64 ∧ p.value = F64.ofU64 n

variable {spelling : Spelling} {reader : Reader} {reading : Reading}
variable {name : Text} {help : Option Text} {start now : ℕ}

/-! ## Metrics -/

/-- What an exporter makes of points, if there are any. -/
def written (m : Option Metric) : List Exported := m.elim [] Metric.series

section Rows

variable {α : Type} {rows : List α} {pairs : α → List Label} {value : α → ℕ}

end Rows

end Metrics

end Shep
