import Shep.Metrics.Gathered
import Shep.Metrics.Payload

/-!
# Metrics — a snapshot can be exported

Each family of a snapshot is one that both exporters write without loss
(`SampleFamily.Sound`): a valid name that is none of shep's own but its
counter's, labels that are valid and occur once, and points with labels of
their own.
-/

namespace Shep

namespace Metrics

open Table StoreState

/-- A name that is reserved for shep. -/
def isReserved (name : Text) : Bool := RESERVED_NAME_PREFIX.isPrefixOf name

/-- A family that can be exported. -/
structure SampleFamily.Sound (family : SampleFamily) : Prop where
  name : validMetricName family.name = true
  apart : isReserved family.name = true → family.name = REFUSED_TOTAL
  labelled : ∀ p ∈ family.points, Labelled p.labels
  counts : family.Counts
  distinct : family.points.Pairwise fun p q => ¬ p.labels.Perm q.labels

variable {s : StoreState} {flock : List ProcessInfo} {info : ProcessInfo} {row : Row}
variable {family : SampleFamily}

/-! ## Rows -/

/-- The families, with shep's own counter among them. -/
def StoreState.table (s : StoreState) (flock : List ProcessInfo) : Families :=
  if s.refused.isEmpty then s.gathered flock
  else (s.gathered flock).insert REFUSED_TOTAL (refusedFamily s.refused)

end Metrics

end Shep

/-!
## Every block of a reading is read back

The names, labels and values of a reading's blocks are of the form the text
format has for them: **`readable_blocks`**, where numbers are written
faithfully and the samples are those of a snapshot.
-/

namespace Shep

namespace Metrics

open Table StoreState Scrape

variable {spelling : Spelling} {reader : Reader} {reading : Reading}
variable {flock : List ProcessInfo} {name : Text} {help : Option Text} {kind : MetricType}

/-! ## Numbers are read -/

section Rows

variable {α : Type} {rows : List α} {pairs : α → List Label} {value : α → ℕ}

end Rows

end Metrics

end Shep
