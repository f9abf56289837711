import Shep.Roll.Model
import Shep.Common.Table

/-!
# Roll — reading the registry

What a lookup reads after a record and after a prune, when two records
commute, and what the stages of a start are made of.
-/

namespace Shep

namespace Roll

open Supervisor

namespace Registry

variable {registry : Registry} {apps apps' : List AppConfig} {infos : List ProcessInfo}
variable {n : String} {app : AppConfig}

/-- Each config stands under its own app's name. -/
def Keyed (registry : Registry) : Prop := Table.Each (fun n app => app.name = n) registry

theorem record_cons (registry : Registry) (app : AppConfig) (apps : List AppConfig) :
    registry.record (app :: apps) = Registry.record (registry.insert app.name app) apps := rfl

theorem isSome_record (h : (registry[n]?).isSome = true) :
    ((registry.record apps)[n]?).isSome = true := by
  induction apps generalizing registry with
  | nil => exact h
  | cons app apps ih =>
    rw [record_cons]
    refine ih ?_
    rw [Table.get_insert]
    split
    · rfl
    · exact h

theorem isSome_record_mem (h : app ∈ apps) :
    ((registry.record apps)[app.name]?).isSome = true := by
  induction apps generalizing registry with
  | nil => cases h
  | cons b apps ih =>
    rw [record_cons]
    rcases List.mem_cons.1 h with rfl | h
    · exact isSome_record (by simp)
    · exact ih h

theorem Keyed.record (h : registry.Keyed) (apps : List AppConfig) : (registry.record apps).Keyed := by
  induction apps generalizing registry with
  | nil => exact h
  | cons app apps ih => exact ih (Table.Each.insert h rfl)

/-- The last of a list of configs that is the app's. -/
def lastOf (apps : List AppConfig) (n : String) : Option AppConfig :=
  apps.reverse.find? fun app => app.name == n

theorem lastOf_cons (app : AppConfig) (apps : List AppConfig) (n : String) :
    lastOf (app :: apps) n = (lastOf apps n).or (if app.name = n then some app else none) := by
  unfold lastOf
  rw [List.reverse_cons, List.find?_append]
  by_cases hn : app.name = n <;> simp [hn]

theorem lastOf_append (apps apps' : List AppConfig) (n : String) :
    lastOf (apps ++ apps') n = (lastOf apps' n).or (lastOf apps n) := by
  unfold lastOf
  rw [List.reverse_append, List.find?_append]

theorem lastOf_mem (h : lastOf apps n = some app) : app ∈ apps ∧ app.name = n := by
  have hname := List.find?_some h
  exact ⟨List.mem_reverse.1 (List.mem_of_find?_eq_some h), by simpa using hname⟩

theorem lastOf_none : lastOf apps n = none ↔ ∀ app ∈ apps, app.name ≠ n := by
  unfold lastOf
  simp

/-- **What a record leaves of an app**: the last config it was given. -/
theorem get_record (registry : Registry) (apps : List AppConfig) (n : String) :
    (registry.record apps)[n]? = (lastOf apps n).or registry[n]? := by
  induction apps generalizing registry with
  | nil => rfl
  | cons app apps ih =>
    rw [record_cons, ih, lastOf_cons, Table.get_insert]
    cases lastOf apps n with
    | some _ => rfl
    | none =>
      by_cases hn : app.name = n
      · simp [hn]
      · simp [hn, Ne.symm hn]

theorem record_append (registry : Registry) (apps apps' : List AppConfig) :
    registry.record (apps ++ apps') = (registry.record apps).record apps' :=
  List.foldl_append

theorem get_prune (registry : Registry) (infos : List ProcessInfo) (n : String) :
    (registry.prune infos)[n]? = if listed infos n then registry[n]? else none := by
  unfold prune
  rw [Std.ExtTreeMap.getElem?_filter']
  cases hl : listed infos n with
  | true => cases registry[n]? <;> simp
  | false => simp

theorem Keyed.prune (h : registry.Keyed) (infos : List ProcessInfo) :
    (registry.prune infos).Keyed := by
  intro n app happ
  rw [get_prune] at happ
  split at happ
  · exact h n app happ
  · cases happ

theorem mem_roll (h : registry[n]? = some app) (hl : listed infos n = true) :
    ∃ saved ∈ registry.roll infos, saved.app = app := by
  have hkept : (n, app) ∈ (registry.prune infos).toList := by
    rw [Table.mem_toList, get_prune, if_pos hl]
    exact h
  exact ⟨_, List.mem_map_of_mem hkept, rfl⟩

end Registry

theorem mem_stagesOf {plan : BootPlan} {apps : List AppConfig} {stage : Stage} {app : AppConfig}
    (hstage : stage ∈ plan.stagesOf apps) (happ : app ∈ stage.members) : app ∈ apps := by
  obtain ⟨names, -, hs⟩ := List.mem_filterMap.1 hstage
  dsimp only at hs
  split at hs
  · cases hs
  · obtain rfl := Option.some.inj hs
    exact (List.mem_filter.1 happ).1

theorem enrolled_stagesOf {plan : BootPlan} {apps : List AppConfig} {policy : BatchPolicy}
    {app : AppConfig} (happ : app ∈ (Errand.start policy (plan.stagesOf apps)).enrolled) :
    app ∈ apps := by
  obtain ⟨stage, hstage, happ⟩ := List.mem_flatMap.1 happ
  exact mem_stagesOf hstage happ

theorem listed_snapshotAll {a : Actor} {id : ℕ} {s : SheepSlot} (hs : a.sheep[id]? = some s) :
    listed a.snapshotAll s.name = true := by
  refine List.any_eq_true.2 ⟨a.withMark (toInfo id s), ?_, ?_⟩
  · unfold Actor.snapshotAll sortFlock
    rw [List.mem_insertionSort]
    exact List.mem_map.2 ⟨(id, s), Table.mem_toList.2 hs, rfl⟩
  · unfold Actor.withMark
    split <;> exact beq_self_eq_true _

end Roll

end Shep
