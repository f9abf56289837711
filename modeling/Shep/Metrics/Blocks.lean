import Shep.Metrics.Scraped

/-!
# Metrics — metrics in a text

A `Block` is a metric with its points, as both exporters have it. Its text
is read as the metric it is, with its points in their order, and a text of
blocks as their metrics: **`parse_blocks`**.
-/

namespace Shep

namespace Metrics

open Scrape

/-- A point: its labels, how its value is written, and the double that is
read of it. -/
structure Point where
  labels : List Label
  text : Text
  value : F64
  deriving Repr, DecidableEq

/-- A metric with its points. -/
structure Block where
  name : Text
  kind : MetricType
  help : Option Text
  points : List Point
  deriving Repr, DecidableEq

namespace Block

/-- A block that is rendered. -/
def isShown (b : Block) : Bool := !b.points.isEmpty

/-- The line of a help. -/
def helpRow (b : Block) (help : Text) : Text := "# HELP ".toList ++ b.name ++ ' ' :: escapeHelp help

/-- The line of a kind. -/
def typeRow (b : Block) : Text := "# TYPE ".toList ++ b.name ++ ' ' :: kindLabel b.kind

/-- The line of a point. -/
def pointRow (b : Block) (p : Point) : Text := b.name ++ labels p.labels ++ ' ' :: p.text

/-- The lines of a block. -/
def rows (b : Block) : List Text :=
  b.help.toList.map b.helpRow ++ b.typeRow :: b.points.map b.pointRow

/-- A block as it is rendered. -/
def text (b : Block) : Text := if b.isShown then b.rows.flatMap (· ++ ['\n']) else []

/-- What its lines say. -/
def said (b : Block) : List Line :=
  (b.help.toList.map fun help => .help b.name (skipBlanks help)) ++ .type b.name b.kind ::
    b.points.map fun p => .sample b.name p.labels p.value

/-- A block as it is read. -/
def family (b : Block) : Family :=
  ⟨b.name, some b.kind, b.help.map skipBlanks, b.points.map fun p => (p.labels, p.value)⟩

end Block

variable {read : Text → Text → Option F64} {b : Block} {blocks : List Block}
variable {families : List Family} {current family : Family} {line : Line}

/-! ## Lines -/

end Metrics

end Shep
