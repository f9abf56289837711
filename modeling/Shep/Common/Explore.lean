import Mathlib.Data.Finset.Card
import Mathlib.Logic.Relation

/-!
# Exploring a graph from a stack

The search that pops a node, marks the successors it has not seen and pushes
them, over any type of nodes. On enough fuel it sees what can be reached
from where it starts, and nothing else (`mem_explore`).
-/

namespace Shep

open Relation

variable {ν : Type*} [DecidableEq ν]

/-- One successor: seen already, or marked and pushed. -/
def Explore.meet (search : List ν × List ν) (child : ν) : List ν × List ν :=
  if child ∈ search.2 then search else (child :: search.1, child :: search.2)

/-- The search, over the stack and what is seen. -/
def explore (next : ν → List ν) : ℕ → List ν × List ν → List ν
  | 0, (_, seen) => seen
  | _ + 1, ([], seen) => seen
  | fuel + 1, (v :: stack, seen) => explore next fuel ((next v).foldl Explore.meet (stack, seen))

namespace Explore

variable {next : ν → List ν} {start : List ν} {search : List ν × List ν} {stack seen : List ν}
variable {u v : ν}

/-- What is seen after a list of successors, and what waits. -/
theorem mem_foldl (children : List ν) (search : List ν × List ν) :
    (v ∈ (children.foldl meet search).2 ↔ v ∈ search.2 ∨ v ∈ children) ∧
      (v ∈ (children.foldl meet search).1 ↔ v ∈ search.1 ∨ v ∈ children ∧ v ∉ search.2) := by
  induction children generalizing search with
  | nil => simp
  | cons child children ih =>
    rw [List.foldl_cons, (ih _).1, (ih _).2, meet]
    split <;> rename_i hin
    · constructor <;> grind
    · constructor <;> grind

/-- The search so far: what waits is seen, what is seen can be reached, and
only what waits may lead on to something unseen. -/
structure Going (next : ν → List ν) (start : List ν) (search : List ν × List ν) : Prop where
  waiting : ∀ v ∈ search.1, v ∈ search.2
  started : ∀ v ∈ start, v ∈ search.2
  reached : ∀ v ∈ search.2, ∃ u ∈ start, ReflTransGen (fun u v => v ∈ next u) u v
  onward : ∀ u ∈ search.2, u ∉ search.1 → ∀ v ∈ next u, v ∈ search.2

theorem Going.popped (h : Going next start (u :: stack, seen)) :
    Going next start ((next u).foldl meet (stack, seen)) where
  waiting v hv := by
    rw [(mem_foldl _ _).2] at hv
    rw [(mem_foldl _ _).1]
    exact hv.elim (fun hv => .inl (h.waiting v (.tail _ hv))) fun hv => .inr hv.1
  started v hv := (mem_foldl _ _).1.2 (.inl (h.started v hv))
  reached v hv := by
    rcases (mem_foldl _ _).1.1 hv with hv | hv
    · exact h.reached v hv
    · obtain ⟨r, hr, hpath⟩ := h.reached u (h.waiting u List.mem_cons_self)
      exact ⟨r, hr, hpath.tail hv⟩
  onward w hw hout v hv := by
    rw [(mem_foldl _ _).1] at hw ⊢
    rw [(mem_foldl _ _).2, not_or, not_and_not_right] at hout
    by_cases hwu : w = u
    · exact .inr (hwu ▸ hv)
    · have hseen : w ∈ seen := hw.elim id hout.2
      exact .inl (h.onward w hseen (by simp [hwu, hout.1]) v hv)

/-! ## Fuel -/

/-- What is still to be done: a step for each node that waits, and for each
of the targets that may yet be pushed. -/
def left (targets : Finset ν) (search : List ν × List ν) : ℕ :=
  search.1.length + (targets \ search.2.toFinset).card

theorem left_foldl {targets : Finset ν} (children : List ν) (search : List ν × List ν)
    (h : ∀ v ∈ children, v ∈ targets) :
    left targets (children.foldl meet search) = left targets search := by
  induction children generalizing search with
  | nil => rfl
  | cons child children ih =>
    rw [List.foldl_cons, ih _ fun v hv => h v (.tail _ hv), meet]
    split
    · rfl
    · next hout =>
      have hin : child ∈ targets \ search.2.toFinset := by
        simp [h child List.mem_cons_self, hout]
      have hcard := Finset.card_erase_add_one hin
      have herase : targets \ (child :: search.2).toFinset
          = (targets \ search.2.toFinset).erase child := by
        ext v
        simp only [Finset.mem_sdiff, List.toFinset_cons, Finset.mem_insert, Finset.mem_erase]
        tauto
      simp only [left, herase, List.length_cons]
      omega

/-- With as much fuel as is left to do, what is seen at the end is closed. -/
theorem explore_closed {targets : Finset ν} (htargets : ∀ u, ∀ v ∈ next u, v ∈ targets)
    {fuel : ℕ} (h : Going next start search) (hfuel : left targets search ≤ fuel) :
    ∃ seen, explore next fuel search = seen ∧ Going next start ([], seen) := by
  induction fuel generalizing search with
  | zero =>
    obtain ⟨stack, seen⟩ := search
    have hstack : stack = [] := by
      simp only [left] at hfuel
      exact List.length_eq_zero_iff.1 (by omega)
    exact ⟨seen, rfl, hstack ▸ h⟩
  | succ fuel ih =>
    obtain ⟨_ | ⟨u, stack⟩, seen⟩ := search
    · exact ⟨seen, rfl, h⟩
    · refine ih h.popped ?_
      rw [left_foldl _ _ (htargets u)]
      simp only [left, List.length_cons] at hfuel ⊢
      omega

/-! ## Steps -/

/-- One turn of the search: the top of the stack is taken off, and what it
leads to is pushed. -/
def pop (next : ν → List ν) : List ν × List ν → List ν × List ν
  | ([], seen) => ([], seen)
  | (u :: stack, seen) => (next u).foldl meet (stack, seen)

theorem pop_nil (fuel : ℕ) (seen : List ν) : (pop next)^[fuel] ([], seen) = ([], seen) :=
  Function.iterate_fixed rfl fuel

theorem explore_eq_pop (fuel : ℕ) (search : List ν × List ν) :
    explore next fuel search = ((pop next)^[fuel] search).2 := by
  induction fuel generalizing search with
  | zero => rfl
  | succ fuel ih =>
    rw [Function.iterate_succ_apply]
    obtain ⟨_ | ⟨u, stack⟩, seen⟩ := search
    · exact (congrArg Prod.snd (pop_nil fuel seen)).symm
    · exact ih _

/-- **The search ends**: as many turns as are left to do empty the stack. -/
theorem pop_ends {targets : Finset ν} (htargets : ∀ u, ∀ v ∈ next u, v ∈ targets) {fuel : ℕ}
    (hfuel : left targets search ≤ fuel) : ((pop next)^[fuel] search).1 = [] := by
  induction fuel generalizing search with
  | zero =>
    simp only [left] at hfuel
    exact List.length_eq_zero_iff.1 (by simp only [Function.iterate_zero_apply]; omega)
  | succ fuel ih =>
    rw [Function.iterate_succ_apply]
    obtain ⟨_ | ⟨u, stack⟩, seen⟩ := search
    · exact congrArg Prod.fst (pop_nil fuel seen)
    · refine ih ?_
      rw [pop, left_foldl _ _ (htargets u)]
      simp only [left, List.length_cons] at hfuel ⊢
      omega

/-- Nothing is seen twice. -/
theorem nodup_foldl (children : List ν) (search : List ν × List ν) (h : search.2.Nodup) :
    (children.foldl meet search).2.Nodup := by
  induction children generalizing search with
  | nil => exact h
  | cons child children ih =>
    rw [List.foldl_cons, meet]
    split
    · exact ih _ h
    · next hout => exact ih _ (List.nodup_cons.2 ⟨hout, h⟩)

theorem nodup_explore {fuel : ℕ} (h : search.2.Nodup) : (explore next fuel search).Nodup := by
  induction fuel generalizing search with
  | zero => exact h
  | succ fuel ih =>
    obtain ⟨_ | ⟨u, stack⟩, seen⟩ := search
    · exact h
    · exact ih (nodup_foldl (next u) (stack, seen) h)

end Explore

/-- **The search sees what can be reached, and nothing else.** -/
theorem mem_explore {next : ν → List ν} {start : List ν} {targets : Finset ν} {fuel : ℕ} {v : ν}
    (htargets : ∀ u, ∀ v ∈ next u, v ∈ targets) (hfuel : start.length + targets.card ≤ fuel) :
    v ∈ explore next fuel (start, start) ↔
      ∃ u ∈ start, ReflTransGen (fun u v => v ∈ next u) u v := by
  have hgoing : Explore.Going next start (start, start) :=
    { waiting := fun _ hv => hv
      started := fun _ hv => hv
      reached := fun v hv => ⟨v, hv, .refl⟩
      onward := fun u hu hout => absurd hu hout }
  have hleft : Explore.left targets (start, start) ≤ fuel := by
    have := Finset.card_le_card (Finset.sdiff_subset (s := targets) (t := start.toFinset))
    simp only [Explore.left]
    omega
  obtain ⟨seen, hseen, h⟩ := Explore.explore_closed htargets hgoing hleft
  rw [hseen]
  constructor
  · exact h.reached v
  · rintro ⟨u, hu, hpath⟩
    clear hseen
    induction hpath with
    | refl => exact h.started u hu
    | tail _ hstep ih => exact h.onward _ ih (by simp) _ hstep

end Shep
