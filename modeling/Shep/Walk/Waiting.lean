import Mathlib.Data.Finset.Union
import Mathlib.Logic.Relation
import Shep.Graph.Model
import Shep.Supervisor.Model.Types

/-!
# Walk — the plan of a request

`staged_plan` of `rpc/batch.rs`, `ordered_walk` and `matched_dependencies`
of `rpc/walk.rs`, and `plan_for_names` of `boot_order.rs`: the plan of the
whole registry, cut down to what a request names. A `BTreeMap` is an
extensional tree map, a `BTreeSet` a `Finset`. The search of
`matched_dependencies` runs on fuel, as much as it can use.
-/

namespace Shep

namespace Walk

open Graph Supervisor

/-- `depends_on_by_name`: every recorded name, with the names it waits for. -/
abbrev Registry := Std.ExtTreeMap String (List String)

/-- What `name` lists; nothing, where it is not recorded. -/
def Registry.listed (edges : Registry) (name : String) : List String := edges[name]?.getD []

/-- `plan_for_names`. -/
def planForNames (edges : Registry) : BootPlan :=
  plan (edges.toList.map fun e => ⟨e.1, e.2, .sheep⟩)

/-- The stages, of these names alone; an empty one goes. -/
def cut (names : Finset String) (stages : List (List String)) : List (List String) :=
  (stages.map fun stage => stage.filter fun name => name ∈ names).filter fun stage =>
    !stage.isEmpty

/-! ## A batch -/

/-- Of a `ResolvedApp`, what the plan reads. -/
structure App where
  name : String
  dependsOn : List String
  deriving Repr, DecidableEq

/-- The graph of `staged_plan`: what is recorded, the dogs, and over both the
batch's own edges. -/
def combined (registry : Registry) (dogNames : List String) (apps : List App) : Registry :=
  let edges := dogNames.foldl (fun edges dog =>
    if dog ∈ edges then edges else edges.insert dog []) registry
  apps.foldl (fun edges app => edges.insert app.name app.dependsOn) edges

/-- `render_cycle`. -/
def renderCycle (cycle : List String) : String :=
  " -> ".intercalate (cycle ++ cycle.head?.toList)

/-- The names of a batch. -/
def batchOf (apps : List App) : Finset String := (apps.map App.name).toFinset

/-- `staged_plan`. -/
def stagedPlan (registry : Registry) (dogNames : List String) (apps : List App) :
    Except String BootPlan :=
  let plan := planForNames (combined registry dogNames apps)
  let batch := batchOf apps
  let cycle := (plan.knots.findIdx? fun knot => decide (∃ name ∈ knot, name ∈ batch)).bind fun knot =>
    plan.cycles[knot]?
  match cycle with
  | some cycle => .error ("dependency cycle: " ++ renderCycle cycle)
  | none => .ok
    { stages := cut batch plan.stages
      unresolved := plan.unresolved
      cycles := []
      knots := [] }

/-! ## A walk -/

/-- What of a listing's row the walk reads. -/
structure Row where
  id : ℕ
  name : String
  fold : Option String
  inst : Option ℕ
  dog : Option DogSource
  disabled : Option Bool
  deriving Repr, DecidableEq

/-- `matches`, of a row that may have no slot. -/
def Row.hitBy (row : Row) (selector : ProcessSelector) : Bool :=
  match selector, row.inst with
  | .inst _ _, none => false
  | selector, inst => selector.hits row.name row.id row.fold (inst.getD 0)

/-- The names `ordered_walk` takes for matched. -/
def matchedBy (selector : ProcessSelector) (flock : List Row) : Finset String :=
  ((((flock.filter fun row => selector.isExact || row.dog.isNone).filter fun row =>
    selector.isExact || row.disabled != some true).filter fun row =>
      row.hitBy selector).map Row.name).toFinset

/-- The search of `matched_dependencies`, the last name of the frontier
first. -/
structure Search where
  found : Finset String
  seen : Finset String
  frontier : List String

/-- One dependency met. -/
def Search.meet (matched : Finset String) (s : Search) (dependency : String) : Search :=
  if dependency ∈ s.seen then s
  else
    { found := if dependency ∈ matched then insert dependency s.found else s.found
      seen := insert dependency s.seen
      frontier := dependency :: s.frontier }

/-- The loop of `matched_dependencies`. -/
def search (edges : Registry) (matched : Finset String) : ℕ → Search → Search
  | 0, s => s
  | fuel + 1, s =>
    match s.frontier with
    | [] => s
    | name :: rest =>
      search edges matched fuel
        ((edges.listed name).foldl (Search.meet matched) { s with frontier := rest })

/-- Every name that some name lists. -/
def Registry.targets (edges : Registry) : Finset String :=
  (edges.toList.flatMap Prod.snd).toFinset

/-- `matched_dependencies`. -/
def matchedDependencies (edges : Registry) (start : String) (matched : Finset String) :
    Finset String :=
  (search edges matched (edges.targets.card + 1) ⟨∅, {start}, [start]⟩).found

/-- `OrderedWalk`. -/
structure OrderedWalk where
  stages : List (List String)
  dependedOn : Finset String
  deriving DecidableEq

/-- `ordered_walk`. -/
def orderedWalk (registry : Registry) (selector : ProcessSelector) (flock : List Row) :
    Option OrderedWalk :=
  let matched := matchedBy selector flock
  if matched.card < 2 then none
  else
    let stages := cut matched (planForNames registry).stages
    let placed := stages.flatten
    let unplaced := (listing matched).filter fun name => name ∉ placed
    some
      { stages := if unplaced.isEmpty then stages else stages ++ [unplaced]
        dependedOn := matched.biUnion fun name => matchedDependencies registry name matched }

end Walk

end Shep

/-!
## Who waits for whom

What the search of `matched_dependencies` finds: `Searching` is its
invariant, every name taken off the frontier adds what it lists
(`Searching.next`), and each name is put there once, so the fuel is enough
(`search_done`).
-/

namespace Shep

namespace Walk

open Relation

variable {edges : Registry} {matched : Finset String} {start u v d : String}

/-- `u` lists `d`. -/
def Registry.Waits (edges : Registry) (u d : String) : Prop := d ∈ edges.listed u

instance (u d : String) : Decidable (edges.Waits u d) := inferInstanceAs (Decidable (_ ∈ _))

theorem mem_of_waits (h : edges.Waits u d) : u ∈ edges := by
  by_contra hu
  rw [Registry.Waits, Registry.listed, Std.ExtTreeMap.getElem?_eq_none hu] at h
  simp at h

theorem mem_targets (h : edges.Waits u d) : d ∈ edges.targets := by
  rw [Registry.targets, List.mem_toFinset, List.mem_flatMap]
  rw [Registry.Waits, Registry.listed] at h
  cases hat : edges[u]? with
  | none => simp [hat] at h
  | some listed => exact ⟨(u, listed), Table.mem_toList.2 hat, by simpa [hat] using h⟩

/-! ## One dependency -/

theorem seen_meet (s : Search) : v ∈ (s.meet matched d).seen ↔ v = d ∨ v ∈ s.seen := by
  rw [Search.meet]
  split
  · next hin => exact ⟨.inr, fun h => h.elim (fun e => e ▸ hin) id⟩
  · simp

theorem frontier_meet (s : Search) :
    v ∈ (s.meet matched d).frontier ↔ v = d ∧ d ∉ s.seen ∨ v ∈ s.frontier := by
  rw [Search.meet]
  split
  · next hin => simp [hin]
  · next hout => simp [hout]

/-- What is found is what is seen of the matched names, but for the start. -/
def Search.Finds (start : String) (matched : Finset String) (s : Search) : Prop :=
  start ∈ s.seen ∧ ∀ v, v ∈ s.found ↔ v ∈ s.seen ∧ v ∈ matched ∧ v ≠ start

theorem Search.Finds.meet {s : Search} (h : s.Finds start matched) (d : String) :
    (s.meet matched d).Finds start matched := by
  rw [Search.meet]
  split
  · exact h
  · next hout =>
    have hne : d ≠ start := fun e => hout (e ▸ h.1)
    refine ⟨Finset.mem_insert_of_mem h.1, fun v => ?_⟩
    have hfound := h.2 v
    dsimp only
    rw [Finset.mem_insert]
    split
    · next hmatched =>
      rw [Finset.mem_insert, hfound]
      constructor
      · rintro (rfl | ⟨hseen, hrest⟩)
        · exact ⟨.inl rfl, hmatched, hne⟩
        · exact ⟨.inr hseen, hrest⟩
      · rintro ⟨rfl | hseen, hrest⟩
        · exact .inl rfl
        · exact .inr ⟨hseen, hrest⟩
    · next hmatched =>
      rw [hfound]
      refine and_congr_left fun hrest => ⟨.inr, fun hseen => ?_⟩
      exact hseen.resolve_left fun e => hmatched (e ▸ hrest.1)

/-! ## One name -/

theorem seen_foldl (listed : List String) (s : Search) :
    v ∈ (listed.foldl (Search.meet matched) s).seen ↔ v ∈ listed ∨ v ∈ s.seen := by
  induction listed generalizing s with
  | nil => simp
  | cons d listed ih => rw [List.foldl_cons, ih, seen_meet, List.mem_cons, or_assoc, or_left_comm]

theorem frontier_foldl (listed : List String) (s : Search) :
    v ∈ (listed.foldl (Search.meet matched) s).frontier ↔
      v ∈ listed ∧ v ∉ s.seen ∨ v ∈ s.frontier := by
  induction listed generalizing s with
  | nil => simp
  | cons d listed ih =>
    rw [List.foldl_cons, ih, seen_meet, frontier_meet, List.mem_cons]
    by_cases hd : v = d
    · subst hd
      simp
    · simp [hd]

theorem finds_foldl {s : Search} (h : s.Finds start matched) (listed : List String) :
    (listed.foldl (Search.meet matched) s).Finds start matched := by
  induction listed generalizing s with
  | nil => exact h
  | cons d listed ih => exact ih (h.meet d)

/-- What a search holds to: everything seen is reached from the start, and
what a name lists is seen once the name is off the frontier. -/
structure Searching (edges : Registry) (start : String) (matched : Finset String) (s : Search) :
    Prop where
  finds : s.Finds start matched
  seen : ∀ v ∈ s.seen, ReflTransGen edges.Waits start v
  onward : ∀ u ∈ s.seen, u ∉ s.frontier → ∀ d, edges.Waits u d → d ∈ s.seen
  frontier : ∀ u ∈ s.frontier, u ∈ s.seen

theorem Searching.next {s : Search} {name : String} {rest : List String}
    (h : Searching edges start matched s) (hfrontier : s.frontier = name :: rest) :
    Searching edges start matched
      ((edges.listed name).foldl (Search.meet matched) { s with frontier := rest }) where
  finds := finds_foldl (s := { s with frontier := rest }) h.finds _
  seen := by
    intro v hv
    rcases (seen_foldl _ _).1 hv with hv | hv
    · exact (h.seen name (h.frontier name (by simp [hfrontier]))).tail hv
    · exact h.seen v hv
  onward := by
    intro u hu hout d hd
    rw [frontier_foldl, not_or] at hout
    rw [seen_foldl] at hu ⊢
    by_cases hname : u = name
    · exact .inl (hname ▸ hd)
    · have hseen : u ∈ s.seen := by
        rcases hu with hu | hu
        · by_contra hnot
          exact hout.1 ⟨hu, hnot⟩
        · exact hu
      exact .inr (h.onward u hseen (by simpa [hfrontier, hname] using hout.2) d hd)
  frontier := by
    intro u hu
    rw [seen_foldl]
    rcases (frontier_foldl _ _).1 hu with hu | hu
    · exact .inl hu.1
    · exact .inr (h.frontier u (by simp [hfrontier, hu]))

/-! ## The search -/

/-- What is left to do: the names on the frontier, and those not seen yet. -/
def Search.left (edges : Registry) (s : Search) : ℕ :=
  s.frontier.length + (edges.targets \ s.seen).card

theorem left_meet (s : Search) (hd : d ∈ edges.targets) :
    (s.meet matched d).left edges = s.left edges := by
  rw [Search.meet]
  split
  · rfl
  · next hout =>
    have hin : d ∈ edges.targets \ s.seen := Finset.mem_sdiff.2 ⟨hd, hout⟩
    have hpos := Finset.card_pos.2 ⟨d, hin⟩
    simp only [Search.left, List.length_cons]
    rw [Finset.sdiff_insert, Finset.card_erase_of_mem hin]
    omega

theorem left_foldl (listed : List String) (s : Search) (h : ∀ d ∈ listed, d ∈ edges.targets) :
    (listed.foldl (Search.meet matched) s).left edges = s.left edges := by
  induction listed generalizing s with
  | nil => rfl
  | cons d listed ih =>
    rw [List.foldl_cons, ih _ fun d hd => h d (List.mem_cons_of_mem _ hd),
      left_meet s (h d List.mem_cons_self)]

/-- With the fuel it is given, the search comes to the end of its frontier. -/
theorem search_done {fuel : ℕ} {s : Search} (h : Searching edges start matched s)
    (hfuel : s.left edges ≤ fuel) :
    Searching edges start matched (search edges matched fuel s) ∧
      (search edges matched fuel s).frontier = [] := by
  induction fuel generalizing s with
  | zero =>
    have hnil : s.frontier = [] := by
      rw [← List.length_eq_zero_iff]
      rw [Search.left] at hfuel
      omega
    exact ⟨h, hnil⟩
  | succ fuel ih =>
    rw [search]
    split
    · next hnil => exact ⟨h, hnil⟩
    · next name rest hfrontier =>
      refine ih (h.next hfrontier) ?_
      rw [left_foldl _ _ fun d hd => mem_targets hd]
      simp only [Search.left, hfrontier, List.length_cons] at hfuel ⊢
      omega

theorem searching_start : Searching edges start matched ⟨∅, {start}, [start]⟩ where
  finds := ⟨by simp, by simp⟩
  seen := by
    intro v hv
    rw [Finset.mem_singleton.1 hv]
  onward := by
    intro u hu hout
    simp only [Finset.mem_singleton, List.mem_singleton] at hu hout
    exact absurd hu hout
  frontier := by simp

/-- Every matched name that `start` waits for, however many hops away. -/
theorem mem_matchedDependencies : d ∈ matchedDependencies edges start matched ↔
    d ∈ matched ∧ d ≠ start ∧ TransGen edges.Waits start d := by
  have hfuel : (⟨∅, {start}, [start]⟩ : Search).left edges ≤ edges.targets.card + 1 := by
    have := Finset.card_le_card (Finset.sdiff_subset (s := edges.targets) (t := {start}))
    simp only [Search.left, List.length_singleton]
    omega
  have hstart : Searching edges start matched ⟨∅, {start}, [start]⟩ := searching_start
  obtain ⟨hsearch, hdone⟩ := search_done hstart hfuel
  rw [matchedDependencies, hsearch.finds.2]
  -- with no frontier left, what is seen is never left
  have hseen : ∀ v, ReflTransGen edges.Waits start v →
      v ∈ (search edges matched (edges.targets.card + 1) ⟨∅, {start}, [start]⟩).seen := by
    intro v hv
    induction hv with
    | refl => exact hsearch.finds.1
    | tail _ he ih => exact hsearch.onward _ ih (by simp [hdone]) _ he
  constructor
  · rintro ⟨hin, hmatched, hne⟩
    refine ⟨hmatched, hne, ?_⟩
    exact (reflTransGen_iff_eq_or_transGen.1 (hsearch.seen d hin)).resolve_left hne
  · rintro ⟨hmatched, hne, hreach⟩
    exact ⟨hseen d hreach.to_reflTransGen, hmatched, hne⟩

end Walk

end Shep
