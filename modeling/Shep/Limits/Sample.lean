import Mathlib.Algebra.Order.Ring.Nat
import Shep.Common.Explore
import Std.Data.ExtTreeMap.Lemmas

/-!
# Limits — one sample of the process table

`limits/sample.rs`: an index of the table by pid and by parent, and the sums
over a process and everything below it. A byte count and a CPU time are
`u64`, and sums saturate.
-/

namespace Shep

namespace Limits

/-- One process's reading, with the link to its parent. -/
structure ProcessRss where
  pid : ℕ
  parent : Option ℕ
  bytes : ℕ
  cpuMs : ℕ
  deriving Repr, DecidableEq

/-- `u64::saturating_add`. -/
def saturatingAdd (a b : ℕ) : ℕ := min (a + b) (2 ^ 64 - 1)

/-- A byte total, a CPU time total and a child list for each pid. -/
structure TreeIndex where
  bytesByPid : Std.ExtTreeMap ℕ ℕ := ∅
  cpuByPid : Std.ExtTreeMap ℕ ℕ := ∅
  childrenOf : Std.ExtTreeMap ℕ (List ℕ) := ∅

namespace TreeIndex

/-- One row of the table. -/
def addRow (index : TreeIndex) (entry : ProcessRss) : TreeIndex where
  bytesByPid := index.bytesByPid.insert entry.pid entry.bytes
  cpuByPid := index.cpuByPid.insert entry.pid entry.cpuMs
  childrenOf :=
    match entry.parent with
    | some parent =>
      index.childrenOf.insert parent (index.childrenOf[parent]?.getD [] ++ [entry.pid])
    | none => index.childrenOf

/-- `TreeIndex::build`. -/
def build (table : List ProcessRss) : TreeIndex := table.foldl addRow {}

variable (index : TreeIndex)

/-- The children of `pid`, in the table's order. -/
def children (pid : ℕ) : List ℕ := index.childrenOf[pid]?.getD []

/-- Every pid the index has as a child of some process. -/
def allChildren : List ℕ := index.childrenOf.toList.flatMap Prod.snd

/-- `descendants_of`: every pid below `root`, `root` excluded. Each pid is
pushed once, so the stack is empty when the fuel is spent. -/
def descendantsOf (root : ℕ) : List ℕ :=
  (explore index.children (1 + index.allChildren.length) ([root], [root])).filter (· ≠ root)

/-- `total_over`. -/
def totalOver (root : ℕ) (totals : Std.ExtTreeMap ℕ ℕ) : ℕ :=
  (index.descendantsOf root).foldl (fun sum pid => saturatingAdd sum (totals[pid]?.getD 0))
    (totals[root]?.getD 0)

/-- Resident memory of `root` and everything below it. -/
def sumFrom (root : ℕ) : ℕ := index.totalOver root index.bytesByPid

/-- CPU time of `root` and everything below it. -/
def cpuFrom (root : ℕ) : ℕ := index.totalOver root index.cpuByPid

end TreeIndex

/-- `tree_rss`. -/
def treeRss (table : List ProcessRss) (root : ℕ) : ℕ := (TreeIndex.build table).sumFrom root

end Limits

end Shep
