import Mathlib.Data.Nat.Log
import Shep.Metrics.Blocks
import Shep.Metrics.Model

/-!
# Metrics — counts as doubles

A count that a double stands for is the count the cast back gives, or the
end of the range where the double is past it; both are the same double
(`ofU64_toU64_ofU64`). A double made of a count is finite.
-/

namespace Shep

namespace Metrics

namespace F64

variable {n e q : ℕ}

end F64

end Metrics

end Shep

/-!
## What the two exporters write

The blocks of a reading, which are the metrics it has and their points. The
text of the reading is the text of its blocks (`render_eq`), and the payload
has the points of the blocks whose value is finite (`encode_series`).
-/

namespace Shep

namespace Metrics

open Scrape
open Bark (ProcStatus)

/-! ## Numbers -/

def F32.isNan (x : F32) : Bool := x.exponent = 255 ∧ x.fraction ≠ 0

def CPU_PERCENT : Text := "shep_sheep_cpu_percent".toList

/-- A scraper's `ParseFloat`, for doubles and for singles, and what it makes
of a NaN. -/
structure Reader where
  double : Text → Option F64
  single : Text → Option F32
  nan : F64
  nanSingle : F32

namespace Reader

variable (reader : Reader)

/-- The double that is read of one. -/
def scraped (x : F64) : F64 := if x.isNan then reader.nan else x

/-- The single that is read of one. -/
def scrapedSingle (x : F32) : F32 := if x.isNan then reader.nanSingle else x

/-- A number of a metric. A share of a core is a single and is read as one;
every other number is a double. -/
def number (name text : Text) : Option F64 :=
  if name = CPU_PERCENT then (reader.single text).map F32.toF64 else reader.double text

end Reader

/-- **Numbers are written faithfully.** What `Display` writes of a finite
number is one token, which is read as the number. -/
structure Faithful (spelling : Spelling) (reader : Reader) : Prop where
  count : ∀ n, n < 2 ^ 64 → reader.double (decimal n) = some (F64.ofU64 n)
  double : ∀ x : F64, x.isFinite = true →
    IsToken (spelling.double x) ∧ reader.double (spelling.double x) = some x
  single : ∀ x : F32,
    IsToken (spelling.single x) ∧ reader.single (spelling.single x) = some (reader.scrapedSingle x)
  nan : reader.double "NaN".toList = some reader.nan ∧ reader.nan.isNan = true
  nanSingle : reader.nanSingle.isNan = true
  plusInf : reader.double "+Inf".toList = some ⟨false, 2047, 0⟩
  minusInf : reader.double "-Inf".toList = some ⟨true, 2047, 0⟩

/-! ## The blocks of a reading -/

/-- The sheep whose share of a core is known. -/
def cpuRows (flock : List ProcessInfo) : List (ProcessInfo × F32) :=
  (sheepRows flock).filterMap fun info => info.cpuPercent.map (Prod.mk info)

/-- The sheep whose memory is known. -/
def memoryRows (flock : List ProcessInfo) : List (ProcessInfo × ℕ) :=
  (sheepRows flock).filterMap fun info => info.memoryBytes.map (Prod.mk info)

/-- The sheep, each with every status. -/
def statusRows (flock : List ProcessInfo) : List (ProcessInfo × ProcStatus) :=
  (sheepRows flock).flatMap fun info => ALL_STATUSES.map (Prod.mk info)

def statusPairs (info : ProcessInfo) (status : ProcStatus) : List Label :=
  sheepLabels info ++ [("status".toList, statusLabel status)]

def dogPairs (info : ProcessInfo) (source : DogSource) : List Label :=
  [("dog".toList, info.name), ("source".toList, source.text)]

/-- A point that is a count. -/
def counted (pairs : List Label) (n : ℕ) : Point := ⟨pairs, decimal n, F64.ofU64 n⟩

variable (spelling : Spelling) (reader : Reader)

/-- A point that is a double. -/
def sampled (p : SamplePoint) : Point :=
  ⟨p.labels, renderValue spelling p.value, reader.scraped p.value⟩

/-- A point that is a single. -/
def percent (pairs : List Label) (x : F32) : Point :=
  ⟨pairs, spelling.single x, (reader.scrapedSingle x).toF64⟩

/-- The built-in metrics. -/
def builtInBlocks (reading : Reading) : List Block :=
  let flock := reading.flock
  [⟨CPU_PERCENT, .gauge,
      some "Tree CPU as a percentage of one core, over the last sampling window.".toList,
      (cpuRows flock).map fun row => percent spelling reader (sheepLabels row.1) row.2⟩,
    ⟨"shep_sheep_memory_bytes".toList, .gauge, some "Tree resident set size in bytes.".toList,
      (memoryRows flock).map fun row => counted (sheepLabels row.1) row.2⟩,
    ⟨"shep_sheep_restart_total".toList, .counter,
      some "Restart count since registration or the last `shep reset`.".toList,
      (sheepRows flock).map fun info => counted (sheepLabels info) info.restarts⟩,
    ⟨"shep_sheep_uptime_seconds".toList, .gauge,
      some "Seconds since this sheep's last successful start.".toList,
      (sheepRows flock).map fun info => counted (sheepLabels info) (info.uptimeMs / 1000)⟩,
    ⟨"shep_sheep_status".toList, .gauge,
      some "1 for the status this sheep is currently in, 0 for every other status.".toList,
      (statusRows flock).map fun row =>
        counted (statusPairs row.1 row.2) (flag (row.1.status = row.2))⟩,
    ⟨"shep_dog_up".toList, .gauge, some "1 when this dog is online, 0 otherwise.".toList,
      (dogRows flock).map fun row =>
        counted (dogPairs row.1 row.2) (flag (row.1.status = .online))⟩,
    ⟨"shep_daemon_up".toList, .gauge, some "Always 1: the scrape reached the shepherd.".toList,
      [counted [("version".toList, reading.daemonVersion)] 1]⟩,
    ⟨"shep_daemon_pid".toList, .gauge,
      some "The shepherd's own pid, so a restart is visible as a step change.".toList,
      [counted [] reading.daemonPid]⟩]

/-- The host's metrics. -/
def hostBlocks (host : Option HostReading) : List Block :=
  let points := fun (value : HostReading → ℕ) => host.toList.map fun reading =>
    counted [] (value reading)
  [⟨"shep_host_memory_total_bytes".toList, .gauge,
      some "Total physical memory on the host.".toList, points HostReading.memoryTotalBytes⟩,
    ⟨"shep_host_memory_used_bytes".toList, .gauge,
      some "Memory in use on the host, as the platform reports it.".toList,
      points HostReading.memoryUsedBytes⟩,
    ⟨"shep_host_processes".toList, .gauge,
      some "Number of processes running on the host, the flock included.".toList,
      points HostReading.processes⟩,
    ⟨"shep_host_uptime_seconds".toList, .gauge, some "Seconds since the host booted.".toList,
      points HostReading.uptimeSeconds⟩]

/-- The metric of a family of samples. -/
def sampleBlock (family : SampleFamily) : Block :=
  ⟨family.name, family.kind, family.help, family.points.map (sampled spelling reader)⟩

/-- shep's own metrics but the one among the samples. -/
def ownBlocks (reading : Reading) : List Block :=
  builtInBlocks spelling reader reading ++ hostBlocks reading.host

/-- The metrics of a reading. -/
def Reading.blocks (reading : Reading) : List Block :=
  ownBlocks spelling reader reading ++ reading.samples.map (sampleBlock spelling reader)

/-! ## The text -/

/-- A block as the group that `exposition.rs` makes of it. -/
def Block.group (b : Block) : MetricGroup :=
  .of b.name (b.help.getD []) (kindLabel b.kind) (b.points.map fun p => (labels p.labels, p.text))

/-- A help that has nothing to escape. -/
def Block.Plain (b : Block) : Prop := ∃ help, b.help = some help ∧ escapeHelp help = help

variable {spelling reader}

/-- The labels and the value of a point, as they are pushed to a group. -/
def pushed (p : Point) : Text × Text := (labels p.labels, p.text)

end Metrics

end Shep
