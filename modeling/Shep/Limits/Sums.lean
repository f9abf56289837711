import Mathlib.Algebra.BigOperators.Group.Finset.Basic
import Mathlib.Data.List.Perm.Basic
import Shep.Common.Table
import Shep.Limits.Sample

/-!
# Limits — what a tree sums to

The index holds the child links of the table and each row's readings, the
walk sees what the links lead to, and a saturating sum is one in any order.
-/

namespace Shep

namespace Limits

open Relation

variable {table table' : List ProcessRss} {row : ProcessRss} {index : TreeIndex}
variable {field : ProcessRss → ℕ} {root pid child : ℕ}

/-! ## The table -/

/-- A row says that `child` is a child of `parent`. -/
def Child (table : List ProcessRss) (parent child : ℕ) : Prop :=
  ∃ row ∈ table, row.parent = some parent ∧ row.pid = child

/-- What a table reads for a pid; a pid it does not have reads 0. -/
def readingOf (field : ProcessRss → ℕ) (table : List ProcessRss) (pid : ℕ) : ℕ :=
  ((table.find? fun row => row.pid == pid).map field).getD 0

/-- No pid has two rows. -/
def Distinct (table : List ProcessRss) : Prop := (table.map ProcessRss.pid).Nodup

/-- The readings are `u64`. -/
def Fits (table : List ProcessRss) : Prop :=
  ∀ row ∈ table, row.bytes ≤ 2 ^ 64 - 1 ∧ row.cpuMs ≤ 2 ^ 64 - 1

theorem Distinct.eq_of_pid (h : Distinct table) {row' : ProcessRss} (hrow : row ∈ table)
    (hrow' : row' ∈ table) (hpid : row.pid = row'.pid) : row = row' :=
  List.inj_on_of_nodup_map h hrow hrow' hpid

theorem readingOf_row (h : Distinct table) (hrow : row ∈ table) :
    readingOf field table row.pid = field row := by
  cases hfind : table.find? fun other => other.pid == row.pid with
  | none =>
    have hout := List.find?_eq_none.1 hfind row hrow
    simp at hout
  | some other =>
    have hpid : other.pid = row.pid := by simpa using List.find?_some hfind
    rw [readingOf, hfind, h.eq_of_pid (List.mem_of_find?_eq_some hfind) hrow hpid]
    rfl

theorem readingOf_absent (h : ∀ row ∈ table, row.pid ≠ pid) : readingOf field table pid = 0 := by
  have hfind : (table.find? fun row => row.pid == pid) = none :=
    List.find?_eq_none.2 fun row hrow => by simpa using h row hrow
  rw [readingOf, hfind]
  rfl

theorem readingOf_perm (h : Distinct table) (hperm : table'.Perm table) :
    readingOf field table' pid = readingOf field table pid := by
  have h' : Distinct table' := (hperm.map _).nodup_iff.2 h
  by_cases hrow : ∃ row ∈ table, row.pid = pid
  · obtain ⟨row, hmem, rfl⟩ := hrow
    rw [readingOf_row h hmem, readingOf_row h' (hperm.mem_iff.2 hmem)]
  · have hout (row : ProcessRss) (hmem : row ∈ table) : row.pid ≠ pid := fun heq =>
      hrow ⟨row, hmem, heq⟩
    rw [readingOf_absent hout, readingOf_absent fun row hmem => hout row (hperm.mem_iff.1 hmem)]

theorem child_perm (hperm : table'.Perm table) : Child table' = Child table := by
  funext parent child
  simp only [Child, hperm.mem_iff]

/-! ## The index -/

/-- The readings of a table, by pid; of two rows with one pid the later stands. -/
def totalsBy (field : ProcessRss → ℕ) (table : List ProcessRss) (totals : Std.ExtTreeMap ℕ ℕ) :
    Std.ExtTreeMap ℕ ℕ :=
  table.foldl (fun totals row => totals.insert row.pid (field row)) totals

theorem foldl_addRow (table : List ProcessRss) (index : TreeIndex) :
    (table.foldl TreeIndex.addRow index).bytesByPid =
        totalsBy ProcessRss.bytes table index.bytesByPid ∧
      (table.foldl TreeIndex.addRow index).cpuByPid =
        totalsBy ProcessRss.cpuMs table index.cpuByPid := by
  induction table generalizing index with
  | nil => exact ⟨rfl, rfl⟩
  | cons row table ih => exact ih (index.addRow row)

theorem totalsBy_eq (h : Distinct table) (totals : Std.ExtTreeMap ℕ ℕ) (pid : ℕ) :
    (totalsBy field table totals)[pid]? =
      ((table.find? fun row => row.pid == pid).map field).or totals[pid]? := by
  induction table generalizing totals with
  | nil => rfl
  | cons row table ih =>
    obtain ⟨hout, hrest⟩ := List.nodup_cons.1 h
    have hstep : totalsBy field (row :: table) totals =
        totalsBy field table (totals.insert row.pid (field row)) := rfl
    rw [hstep, ih hrest, Table.get_insert]
    by_cases hpid : pid = row.pid
    · subst hpid
      have hnone : (table.find? fun other => other.pid == row.pid) = none :=
        List.find?_eq_none.2 fun other hother heq =>
          hout (List.mem_map.2 ⟨other, hother, by simpa using heq⟩)
      simp [hnone]
    · have hne : ¬ row.pid = pid := fun heq => hpid heq.symm
      simp [hpid, hne]

theorem totals_build (h : Distinct table) (pid : ℕ) :
    ((TreeIndex.build table).bytesByPid[pid]?.getD 0 = readingOf ProcessRss.bytes table pid) ∧
      (TreeIndex.build table).cpuByPid[pid]?.getD 0 = readingOf ProcessRss.cpuMs table pid := by
  obtain ⟨hbytes, hcpu⟩ := foldl_addRow table {}
  constructor
  · rw [TreeIndex.build, hbytes, totalsBy_eq h, readingOf]
    simp
  · rw [TreeIndex.build, hcpu, totalsBy_eq h, readingOf]
    simp

theorem children_foldl (table : List ProcessRss) (index : TreeIndex) (pid : ℕ) :
    (table.foldl TreeIndex.addRow index).children pid =
      index.children pid ++
        (table.filter fun row => row.parent == some pid).map ProcessRss.pid := by
  induction table generalizing index with
  | nil => simp
  | cons row table ih =>
    rw [List.foldl_cons, ih]
    cases hparent : row.parent with
    | none => simp [TreeIndex.children, TreeIndex.addRow, hparent]
    | some parent =>
      by_cases hpid : pid = parent
      · subst hpid
        simp [TreeIndex.children, TreeIndex.addRow, hparent]
      · have hne : ¬ parent = pid := fun heq => hpid heq.symm
        simp [TreeIndex.children, TreeIndex.addRow, hparent, hpid, hne]

theorem mem_children : child ∈ (TreeIndex.build table).children pid ↔ Child table pid child := by
  rw [TreeIndex.build, children_foldl]
  simp only [TreeIndex.children, Std.ExtTreeMap.getElem?_empty, Option.getD_none, List.nil_append,
    List.mem_map, List.mem_filter, beq_iff_eq, Child, and_assoc]

theorem mem_allChildren (h : child ∈ index.children pid) : child ∈ index.allChildren := by
  unfold TreeIndex.children at h
  cases hget : index.childrenOf[pid]? with
  | none => simp [hget] at h
  | some children =>
    rw [hget] at h
    have hmem := Std.ExtTreeMap.mem_toList_iff_getElem?_eq_some.2 hget
    exact List.mem_flatMap.2 ⟨(pid, children), hmem, h⟩

/-! ## The walk -/

theorem children_targets (index : TreeIndex) (pid child : ℕ) (h : child ∈ index.children pid) :
    child ∈ index.allChildren.toFinset := List.mem_toFinset.2 (mem_allChildren h)

theorem fuel_enough (index : TreeIndex) (root : ℕ) :
    [root].length + index.allChildren.toFinset.card ≤ 1 + index.allChildren.length :=
  Nat.add_le_add_left (List.toFinset_card_le _) 1

theorem mem_descendantsOf : pid ∈ (TreeIndex.build table).descendantsOf root ↔
    pid ≠ root ∧ ReflTransGen (Child table) root pid := by
  have hlinks : (fun u v => v ∈ (TreeIndex.build table).children u) = Child table := by
    funext u v
    exact propext mem_children
  rw [TreeIndex.descendantsOf, List.mem_filter,
    mem_explore (children_targets _) (fuel_enough _ root), hlinks]
  simp [and_comm]

theorem nodup_descendantsOf (index : TreeIndex) (root : ℕ) : (index.descendantsOf root).Nodup :=
  (Explore.nodup_explore (List.nodup_singleton root)).filter _

/-- The walk ends: in at most one turn more than there are children the stack
is empty, and what is seen then is what is below the root. -/
theorem walk_ends (index : TreeIndex) (root : ℕ) : ∃ seen,
    (Explore.pop index.children)^[1 + index.allChildren.length] ([root], [root]) = ([], seen) ∧
      index.descendantsOf root = seen.filter (· ≠ root) := by
  have hfuel : Explore.left index.allChildren.toFinset ([root], [root]) ≤
      1 + index.allChildren.length := by
    refine le_trans ?_ (fuel_enough index root)
    exact Nat.add_le_add_left (Finset.card_le_card Finset.sdiff_subset) _
  have hempty := Explore.pop_ends (children_targets index) hfuel
  refine ⟨_, Prod.ext hempty rfl, ?_⟩
  rw [TreeIndex.descendantsOf, Explore.explore_eq_pop]

/-! ## Saturating sums -/

theorem foldl_saturatingAdd {f : ℕ → ℕ} {start : ℕ} (hstart : start ≤ 2 ^ 64 - 1) (order : List ℕ) :
    order.foldl (fun sum pid => saturatingAdd sum (f pid)) start =
      min (start + (order.map f).sum) (2 ^ 64 - 1) := by
  induction order generalizing start with
  | nil => exact (Nat.min_eq_left hstart).symm
  | cons pid order ih =>
    have hstep : saturatingAdd start (f pid) ≤ 2 ^ 64 - 1 := Nat.min_le_right _ _
    rw [List.foldl_cons, ih hstep, List.map_cons, List.sum_cons, saturatingAdd]
    omega

theorem Fits.reading (h : Fits table) (pid : ℕ) :
    readingOf ProcessRss.bytes table pid ≤ 2 ^ 64 - 1 ∧
      readingOf ProcessRss.cpuMs table pid ≤ 2 ^ 64 - 1 := by
  unfold readingOf
  cases hfind : table.find? fun row => row.pid == pid with
  | none => exact ⟨Nat.zero_le _, Nat.zero_le _⟩
  | some row => exact h row (List.mem_of_find?_eq_some hfind)

/-- The saturated sum of a reading over a root and everything below it. -/
def treeSum (field : ProcessRss → ℕ) (table : List ProcessRss) (root : ℕ) : ℕ :=
  min (∑ pid ∈ insert root ((TreeIndex.build table).descendantsOf root).toFinset,
    readingOf field table pid) (2 ^ 64 - 1)

theorem foldl_order {totals : Std.ExtTreeMap ℕ ℕ} {order : List ℕ}
    (htotals : ∀ pid, totals[pid]?.getD 0 = readingOf field table pid)
    (hroot : readingOf field table root ≤ 2 ^ 64 - 1)
    (horder : order.Perm ((TreeIndex.build table).descendantsOf root)) :
    order.foldl (fun sum pid => saturatingAdd sum (totals[pid]?.getD 0)) (totals[root]?.getD 0) =
      treeSum field table root := by
  have hnodup : order.Nodup := horder.nodup_iff.2 (nodup_descendantsOf _ root)
  have hout : root ∉ order.toFinset := fun hmem =>
    (mem_descendantsOf.1 (horder.mem_iff.1 (List.mem_toFinset.1 hmem))).1 rfl
  have hset : ((TreeIndex.build table).descendantsOf root).toFinset = order.toFinset :=
    (List.toFinset_eq_of_perm _ _ horder).symm
  simp only [htotals]
  rw [foldl_saturatingAdd hroot, treeSum, hset, Finset.sum_insert hout,
    List.sum_toFinset _ hnodup]

/-! ## The property -/

/-- What the index of a table says of a root: the walk ends with the pids its
child links lead to, and the sums are over the root and those, each once,
whatever order they or the rows come in. -/
structure Exact (table : List ProcessRss) (root : ℕ) : Prop where
  terminates : ∃ seen,
    (Explore.pop (TreeIndex.build table).children)^[1 + (TreeIndex.build table).allChildren.length]
        ([root], [root]) = ([], seen) ∧
      (TreeIndex.build table).descendantsOf root = seen.filter (· ≠ root)
  descendants : ∀ pid, pid ∈ (TreeIndex.build table).descendantsOf root ↔
    pid ≠ root ∧ ReflTransGen (Child table) root pid
  once : ((TreeIndex.build table).descendantsOf root).Nodup
  memory : ∀ order : List ℕ, order.Perm ((TreeIndex.build table).descendantsOf root) →
    order.foldl (fun sum pid => saturatingAdd sum ((TreeIndex.build table).bytesByPid[pid]?.getD 0))
      ((TreeIndex.build table).bytesByPid[root]?.getD 0) = treeSum ProcessRss.bytes table root
  cpu : ∀ order : List ℕ, order.Perm ((TreeIndex.build table).descendantsOf root) →
    order.foldl (fun sum pid => saturatingAdd sum ((TreeIndex.build table).cpuByPid[pid]?.getD 0))
      ((TreeIndex.build table).cpuByPid[root]?.getD 0) = treeSum ProcessRss.cpuMs table root
  sums : (TreeIndex.build table).sumFrom root = treeSum ProcessRss.bytes table root ∧
    (TreeIndex.build table).cpuFrom root = treeSum ProcessRss.cpuMs table root ∧
    treeRss table root = treeSum ProcessRss.bytes table root
  rows : ∀ table' : List ProcessRss, table'.Perm table →
    ((TreeIndex.build table').descendantsOf root).Perm
        ((TreeIndex.build table).descendantsOf root) ∧
      (TreeIndex.build table').sumFrom root = (TreeIndex.build table).sumFrom root ∧
      (TreeIndex.build table').cpuFrom root = (TreeIndex.build table).cpuFrom root

theorem descendantsOf_perm (hperm : table'.Perm table) :
    ((TreeIndex.build table').descendantsOf root).Perm
      ((TreeIndex.build table).descendantsOf root) := by
  refine (List.perm_ext_iff_of_nodup (nodup_descendantsOf _ _) (nodup_descendantsOf _ _)).2 ?_
  intro pid
  rw [mem_descendantsOf, mem_descendantsOf, child_perm hperm]

theorem treeSum_perm (h : Distinct table) (hperm : table'.Perm table) :
    treeSum field table' root = treeSum field table root := by
  have hset : ((TreeIndex.build table').descendantsOf root).toFinset =
      ((TreeIndex.build table).descendantsOf root).toFinset :=
    List.toFinset_eq_of_perm _ _ (descendantsOf_perm hperm)
  rw [treeSum, treeSum, hset]
  refine congrArg (min · _) (Finset.sum_congr rfl fun pid _ => readingOf_perm h hperm)

theorem sumFrom_eq (h : Distinct table) (hfits : Fits table) (root : ℕ) :
    (TreeIndex.build table).sumFrom root = treeSum ProcessRss.bytes table root :=
  foldl_order (fun pid => (totals_build h pid).1) (hfits.reading root).1 (List.Perm.refl _)

theorem cpuFrom_eq (h : Distinct table) (hfits : Fits table) (root : ℕ) :
    (TreeIndex.build table).cpuFrom root = treeSum ProcessRss.cpuMs table root :=
  foldl_order (fun pid => (totals_build h pid).2) (hfits.reading root).2 (List.Perm.refl _)

/-- **Process-tree sums are exact**, for every table of distinct pids whose
readings are `u64`, whatever its parent links, and every root. -/
theorem tree_sums_exact (table : List ProcessRss) (h : Distinct table) (hfits : Fits table)
    (root : ℕ) : Exact table root where
  terminates := walk_ends _ root
  descendants _ := mem_descendantsOf
  once := nodup_descendantsOf _ root
  memory _ horder := foldl_order (fun pid => (totals_build h pid).1) (hfits.reading root).1 horder
  cpu _ horder := foldl_order (fun pid => (totals_build h pid).2) (hfits.reading root).2 horder
  sums := ⟨sumFrom_eq h hfits root, cpuFrom_eq h hfits root, sumFrom_eq h hfits root⟩
  rows table' hperm := by
    have h' : Distinct table' := (hperm.map _).nodup_iff.2 h
    have hfits' : Fits table' := fun row hrow => hfits row (hperm.mem_iff.1 hrow)
    refine ⟨descendantsOf_perm hperm, ?_, ?_⟩
    · rw [sumFrom_eq h' hfits', sumFrom_eq h hfits, treeSum_perm h hperm]
    · rw [cpuFrom_eq h' hfits', cpuFrom_eq h hfits, treeSum_perm h hperm]

/-- A cycle of 1 and 2, 3 below it with an absent parent's child 4 beside, and
5 its own parent. -/
def tangledTable : List ProcessRss :=
  [⟨1, some 2, 10, 1⟩, ⟨2, some 1, 20, 2⟩, ⟨3, some 2, 2 ^ 64 - 1, 3⟩, ⟨4, some 9, 40, 4⟩,
    ⟨5, some 5, 50, 5⟩]

theorem tree_sums_exact_tangled : Distinct tangledTable ∧ Fits tangledTable ∧
    Exact tangledTable 1 := by
  have hdistinct : Distinct tangledTable := by
    unfold Distinct
    decide
  have hfits : Fits tangledTable := by
    intro row hrow
    simp only [tangledTable, List.mem_cons, List.not_mem_nil, or_false] at hrow
    rcases hrow with rfl | rfl | rfl | rfl | rfl <;> norm_num
  exact ⟨hdistinct, hfits, tree_sums_exact tangledTable hdistinct hfits 1⟩

end Limits

end Shep
