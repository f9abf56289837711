import Shep.Graph.Helpers.Split

/-!
# Graph — the boot plan

**The plan is a plan.** `plan_sound` puts every node in one stage after what
it waits for, with the knots in a stage of their own, boot-first dogs
before everything and undepended dogs after everything, and says that
neither pass of Kahn's algorithm stalls.

A dog nobody depends on waits for nothing and still stands after the knot
stage, so standing after it says that a node hangs off a knot only of the
other nodes (`plan_dog_after_knot`).
-/

namespace Shep

namespace Graph

open Relation

variable {nodes : List BootNode} {u v d : String}

/-- `v` is a member of a knot. -/
def BootPlan.Knotted (p : BootPlan) (v : String) : Prop := ∃ k ∈ p.knots, v ∈ k

/-- What a plan of `nodes` promises. -/
structure BootPlan.Orders (p : BootPlan) (nodes : List BootNode) : Prop where
  once : p.stages.flatten.Perm (nodes.map BootNode.name)
  sorted : ∀ stage ∈ p.stages, stage ≠ [] ∧ stage.Pairwise (· < ·)
  earlier : ∀ u i, ¬ p.Knotted u → Placed p.stages i u → ∀ d, Depends nodes u d →
    ∃ j < i, Placed p.stages j d
  together : ∀ u v i, p.Knotted u → Placed p.stages i u → (Placed p.stages i v ↔ p.Knotted v)
  after : ∀ u v i j, p.Knotted u → Placed p.stages i u → ¬ p.Knotted v → ¬ Undepended nodes v →
    Placed p.stages j v → (i < j ↔ ∃ w, p.Knotted w ∧ TransGen (Depends nodes) v w)
  first : ∀ u v i j, BootsFirst nodes u → ¬ BootsFirst nodes v → Placed p.stages i u →
    Placed p.stages j v → i < j
  last : ∀ u v i j, ¬ Undepended nodes u → Undepended nodes v → Placed p.stages i u →
    Placed p.stages j v → i < j

/-! ## The stages, part by part -/

theorem knotted_plan : (plan nodes).Knotted v ↔ v ∈ (split nodes).inACycle := by
  show (∃ k ∈ knots (edgesOf nodes).2, v ∈ k) ↔ _
  rw [exists_mem_knots, waits_eq_depends, mem_inACycle]

theorem flatten_stageOf (names : List String) : (stageOf names).flatten = names := by
  cases names <;> simp [stageOf]

theorem mem_stageOf {names stage : List String} (h : stage ∈ stageOf names) :
    stage = names ∧ names ≠ [] := by
  cases names with
  | nil => simp [stageOf] at h
  | cons name names => simpa [stageOf] using h

section Parts

variable (hnames : (nodes.map BootNode.name).Nodup)
  (hdogs : ∀ node ∈ nodes, node.kind ≠ .sheep → node.dependsOn = [])

include hnames hdogs

theorem mem_stages : v ∈ (split nodes).stages.flatten ↔
    (((v ∈ (split nodes).first ∨ v ∈ (split nodes).ordered) ∨ v ∈ (split nodes).inACycle) ∨
      v ∈ (split nodes).afterCycle) ∨ v ∈ (split nodes).last := by
  obtain ⟨-, -, -, hordered, -⟩ := kahn_ordered_spec hnames hdogs Set.univ (by simp)
  obtain ⟨-, -, -, hafter, -⟩ := kahn_after_spec hnames Set.univ (by simp)
  simp only [Split.stages, List.flatten_append, List.mem_append, flatten_stageOf, mem_listing,
    hordered, hafter]

theorem nodup_stages : (split nodes).stages.flatten.Nodup := by
  obtain ⟨-, -, hn1, hordered, -⟩ := kahn_ordered_spec hnames hdogs Set.univ (by simp)
  obtain ⟨-, -, hn2, hafter, -⟩ := kahn_after_spec hnames Set.univ (by simp)
  have hno : ∀ {w}, BootsFirst nodes w ∨ Undepended nodes w →
      w ∉ (split nodes).inACycle ∧ w ∉ (split nodes).afterCycle := by
    rintro w (hw | ⟨hw, -⟩)
    · exact not_cyclic_of_no_depends (dog_no_depends hnames hdogs hw)
    · exact not_cyclic_of_no_depends (dog_no_depends hnames hdogs hw)
  have hone : ∀ {w}, BootsFirst nodes w → ¬ Undepended nodes w := by
    rintro w ⟨n, hn, hname, hk⟩ ⟨⟨m, hm, hname', hk'⟩, -⟩
    rw [node_unique hnames hn hm (hname.trans hname'.symm), hk'] at hk
    simp at hk
  simp only [Split.stages, List.flatten_append, flatten_stageOf]
  refine List.nodup_append.2 ⟨List.nodup_append.2 ⟨List.nodup_append.2 ⟨List.nodup_append.2
    ⟨(pairwise_first hnames).imp ne_of_lt, hn1, ?_⟩, nodup_listing _, ?_⟩, hn2, ?_⟩,
    (pairwise_last hnames).imp ne_of_lt, ?_⟩
  · rintro w hw x hx rfl
    exact ((mem_ordered hnames).1 ((hordered w).1 hx)).2.2.2.1 ((mem_first hnames hdogs).1 hw)
  · rintro w hw x hx rfl
    rw [mem_listing] at hx
    rcases List.mem_append.1 hw with hw | hw
    · exact (hno (Or.inl ((mem_first hnames hdogs).1 hw))).1 hx
    · exact ((mem_ordered hnames).1 ((hordered w).1 hw)).2.1 hx
  · rintro w hw x hx rfl
    rw [hafter] at hx
    rcases List.mem_append.1 hw with hw | hw
    · rcases List.mem_append.1 hw with hw | hw
      · exact (hno (Or.inl ((mem_first hnames hdogs).1 hw))).2 hx
      · exact ((mem_ordered hnames).1 ((hordered w).1 hw)).2.2.1 hx
    · exact (mem_afterCycle.1 hx).1 (mem_listing.1 hw)
  · rintro w hw x hx rfl
    rw [mem_last hnames hdogs] at hx
    rcases List.mem_append.1 hw with hw | hw
    · rcases List.mem_append.1 hw with hw | hw
      · rcases List.mem_append.1 hw with hw | hw
        · exact hone ((mem_first hnames hdogs).1 hw) hx
        · exact ((mem_ordered hnames).1 ((hordered w).1 hw)).2.2.2.2 hx
      · exact (hno (Or.inr hx)).1 (mem_listing.1 hw)
    · exact (hno (Or.inr hx)).2 ((hafter w).1 hw)

/-- Outside the knots, what a node waits for is placed before it. -/
theorem staged_stages : Staged (fun u d => u ∉ (split nodes).inACycle ∧ Depends nodes u d) ∅
    (split nodes).stages := by
  have hdog : ∀ (names : List String) (before : Set String),
      (∀ u ∈ names, ∀ d, ¬ Depends nodes u d) →
      Staged (fun u d => u ∉ (split nodes).inACycle ∧ Depends nodes u d) before (stageOf names) := by
    intro names before hno
    cases names with
    | nil => trivial
    | cons name names => exact ⟨fun u hu d hd => absurd hd.2 (hno u hu d), trivial⟩
  obtain ⟨-, -, -, hordered, -⟩ := kahn_ordered_spec hnames hdogs Set.univ (by simp)
  unfold Split.stages
  refine Staged.append.2 ⟨Staged.append.2 ⟨Staged.append.2 ⟨Staged.append.2 ⟨?_, ?_⟩, ?_⟩, ?_⟩, ?_⟩
  · exact hdog _ _ fun u hu => dog_no_depends hnames hdogs ((mem_first hnames hdogs).1 hu)
  · refine (kahn_ordered_spec hnames hdogs _ fun d hd => Or.inr ?_).2.2.2.2.imp fun u d h => h.2
    show d ∈ (stageOf (split nodes).first).flatten
    rw [flatten_stageOf, mem_first hnames hdogs]
    exact hd
  · -- a member of a knot waits for what is placed with it
    cases hlist : listing (split nodes).inACycle with
    | nil => trivial
    | cons name names =>
      refine ⟨fun u hu d hd => absurd ?_ hd.1, trivial⟩
      rw [← mem_listing, hlist]
      exact hu
  · refine (kahn_after_spec hnames _ fun d hd => Or.inr ?_).2.2.2.2.imp fun u d h => h.2
    simp only [List.flatten_append, flatten_stageOf, Set.mem_ofPred_eq, List.mem_append, hordered,
      mem_listing, mem_first hnames hdogs]
    rcases hd with hd | hd | hd
    · exact Or.inr hd
    · exact Or.inl (Or.inr hd)
    · exact Or.inl (Or.inl hd)
  · exact hdog _ _ fun u hu => dog_no_depends hnames hdogs ((mem_last hnames hdogs).1 hu).1

/-- Every stage is a part's own, so no stage is empty and each is
sorted. -/
theorem sorted_stages (stage : List String) (h : stage ∈ (split nodes).stages) :
    stage ≠ [] ∧ stage.Pairwise (· < ·) := by
  unfold Split.stages at h
  rcases List.mem_append.1 h with h | h
  · rcases List.mem_append.1 h with h | h
    · rcases List.mem_append.1 h with h | h
      · rcases List.mem_append.1 h with h | h
        · obtain ⟨rfl, hne⟩ := mem_stageOf h
          exact ⟨hne, pairwise_first hnames⟩
        · exact (kahn_ordered_spec hnames hdogs Set.univ (by simp)).2.1 stage h
      · obtain ⟨rfl, hne⟩ := mem_stageOf h
        exact ⟨hne, pairwise_listing _⟩
    · exact (kahn_after_spec hnames Set.univ (by simp)).2.1 stage h
  · obtain ⟨rfl, hne⟩ := mem_stageOf h
    exact ⟨hne, pairwise_last hnames⟩

theorem perm_stages : (split nodes).stages.flatten.Perm (nodes.map BootNode.name) := by
  refine (List.perm_ext_iff_of_nodup (nodup_stages hnames hdogs) hnames).2 fun v => ?_
  have hname : v ∈ nodes.map BootNode.name ↔ v ∈ namesOf nodes := by simp [namesOf]
  rw [hname, mem_parts hnames hdogs, mem_stages hnames hdogs, or_assoc, or_assoc, or_assoc]

/-- The knots stand together, and alone. -/
theorem placed_cycle {i : ℕ} (hu : u ∈ (split nodes).inACycle)
    (hi : Placed (split nodes).stages i u) :
    Placed (split nodes).stages i v ↔ v ∈ (split nodes).inACycle := by
  have hne : listing (split nodes).inACycle ≠ [] := by
    rw [Ne, listing_eq_nil]
    exact Finset.ne_empty_of_mem hu
  have hstage : (split nodes).stages[(stageOf (split nodes).first ++ (kahn (split nodes).ordered
      (split nodes).edges (split nodes).first.toFinset).1).length]? =
      some (listing (split nodes).inACycle) := by
    have hcons : stageOf (listing (split nodes).inACycle) = [listing (split nodes).inACycle] := by
      simp [stageOf, hne]
    simp only [Split.stages, hcons]
    rw [List.append_assoc, List.append_assoc, List.getElem?_append_right le_rfl]
    simp
  have hat : Placed (split nodes).stages (stageOf (split nodes).first ++ (kahn (split nodes).ordered
      (split nodes).edges (split nodes).first.toFinset).1).length u :=
    ⟨_, hstage, mem_listing.2 hu⟩
  rw [hi.unique (nodup_stages hnames hdogs) hat]
  constructor
  · rintro ⟨stage, hs, hv⟩
    rw [hstage] at hs
    rw [← mem_listing, Option.some.inj hs]
    exact hv
  · exact fun hv => ⟨_, hstage, mem_listing.2 hv⟩

/-- A node outside the knots that is not a dog left for last stands after
them when it hangs off one, and before them when it does not. -/
theorem placed_after {i j : ℕ} (hu : u ∈ (split nodes).inACycle)
    (hi : Placed (split nodes).stages i u) (hv : v ∉ (split nodes).inACycle)
    (hlast : ¬ Undepended nodes v) (hj : Placed (split nodes).stages j v) :
    i < j ↔ v ∈ (split nodes).afterCycle := by
  obtain ⟨-, -, -, hordered, -⟩ := kahn_ordered_spec hnames hdogs Set.univ (by simp)
  obtain ⟨-, -, -, hafter, -⟩ := kahn_after_spec hnames Set.univ (by simp)
  have hnodup := nodup_stages hnames hdogs
  have hmem := (mem_stages hnames hdogs).1 hj.mem
  unfold Split.stages at hi hj hnodup
  constructor
  · intro hlt
    by_contra hnot
    have habove : v ∈ (split nodes).first ∨ v ∈ (split nodes).ordered := by
      rcases hmem with (((h | h) | h) | h) | h
      · exact Or.inl h
      · exact Or.inr h
      · exact absurd h hv
      · exact absurd h hnot
      · exact absurd ((mem_last hnames hdogs).1 h) hlast
    rw [List.append_assoc, List.append_assoc] at hi hj hnodup
    have hgt := Placed.lt_of_append hnodup (by simpa [flatten_stageOf, hordered] using habove)
      (by simp [flatten_stageOf, hu]) hj hi
    omega
  · intro hin
    rw [List.append_assoc] at hi hj hnodup
    exact Placed.lt_of_append hnodup (by simp [flatten_stageOf, hu])
      (by simp [hafter, hin]) hi hj

theorem orders_plan : (plan nodes).Orders nodes := by
  have hnodup := nodup_stages hnames hdogs
  refine ⟨perm_stages hnames hdogs, sorted_stages hnames hdogs, ?_, ?_, ?_, ?_, ?_⟩
  · intro u i hu hi d hd
    rw [knotted_plan] at hu
    have hneed := (staged_stages hnames hdogs).needs hi ⟨hu, hd⟩
    exact hneed.resolve_left (Set.notMem_empty d)
  · intro u v i hu hi
    rw [knotted_plan] at hu ⊢
    exact placed_cycle hnames hdogs hu hi
  · intro u v i j hu hi hv hlast hj
    simp only [knotted_plan] at hu hv ⊢
    rw [placed_after hnames hdogs hu hi hv hlast hj, mem_afterCycle]
    exact ⟨fun h => h.2, fun h => ⟨hv, h⟩⟩
  · intro u v i j hu hv hi hj
    have hbelow : v ∉ (split nodes).first := fun h => hv ((mem_first hnames hdogs).1 h)
    simp only [plan, Split.stages, List.append_assoc] at hi hj
    simp only [Split.stages, List.append_assoc] at hnodup
    refine Placed.lt_of_append hnodup ?_ ?_ hi hj
    · rw [flatten_stageOf, mem_first hnames hdogs]
      exact hu
    · have hall := hj.mem
      rw [List.flatten_append, List.mem_append, flatten_stageOf] at hall
      exact hall.resolve_left hbelow
  · intro u v i j hu hv hi hj
    have habove : u ∉ (split nodes).last := fun h => hu ((mem_last hnames hdogs).1 h)
    simp only [plan, Split.stages] at hi hj
    unfold Split.stages at hnodup
    refine Placed.lt_of_append hnodup ?_ ?_ hi hj
    · have hall := hi.mem
      rw [List.flatten_append, List.mem_append, flatten_stageOf] at hall
      exact hall.resolve_right habove
    · rw [flatten_stageOf, mem_last hnames hdogs]
      exact hv

/-- **The plan is a plan**, and neither pass over it stalls. -/
theorem plan_sound : (plan nodes).Orders nodes ∧
    (kahn (split nodes).ordered (split nodes).edges (split nodes).first.toFinset).2 = ∅ ∧
    (kahn (split nodes).afterCycle (split nodes).edges ∅).2 = ∅ :=
  ⟨orders_plan hnames hdogs, (kahn_ordered_spec hnames hdogs Set.univ (by simp)).1,
    (kahn_after_spec hnames Set.univ (by simp)).1⟩

end Parts

/-- Two sheep that wait for each other, and a dog nobody depends on. -/
def knotAndDog : List BootNode :=
  [⟨"a", ["b"], .sheep⟩, ⟨"b", ["a"], .sheep⟩, ⟨"m", [], .dog false⟩]

theorem plan_sound_knotAndDog : (plan knotAndDog).Orders knotAndDog :=
  (plan_sound (show (knotAndDog.map BootNode.name).Nodup by decide) (by decide)).1

/-- The dog stands after the knot stage and depends on nothing. -/
theorem plan_dog_after_knot : ¬ ∀ nodes : List BootNode, (nodes.map BootNode.name).Nodup →
    (∀ node ∈ nodes, node.kind ≠ .sheep → node.dependsOn = []) → ∀ u v i j,
      (plan nodes).Knotted u → Placed (plan nodes).stages i u → ¬ (plan nodes).Knotted v →
      Placed (plan nodes).stages j v →
      (i < j ↔ ∃ w, (plan nodes).Knotted w ∧ TransGen (Depends nodes) v w) := by
  intro h
  have hstages : (plan knotAndDog).stages = [["a", "b"], ["m"]] := by decide +kernel
  have hknots : (plan knotAndDog).knots = [{"a", "b"}] := by decide +kernel
  have hiff := h knotAndDog (by decide) (by decide) "a" "m" 0 1 ⟨{"a", "b"}, by simp [hknots]⟩
    ⟨["a", "b"], by simp [hstages]⟩ (by simp [BootPlan.Knotted, hknots])
    ⟨["m"], by simp [hstages]⟩
  obtain ⟨w, -, hreach⟩ := hiff.1 Nat.zero_lt_one
  obtain ⟨d, ⟨-, node, hnode, hname, hd⟩, -⟩ := TransGen.head'_iff.1 hreach
  -- of the three nodes only the dog is called so, and it lists nothing
  simp only [knotAndDog, List.mem_cons, List.not_mem_nil, or_false] at hnode
  rcases hnode with rfl | rfl | rfl <;> simp at hname hd

end Graph

end Shep
