import Shep.Graph.Helpers.Split

/-!
# Graph — declaration order

**The plan does not read the order a flock is declared in.** The edge table
is extensional, every set is read in order, and the two lists of dogs are
sorted; only the dropped edges are reported as they were met.
-/

namespace Shep

namespace Graph

variable {nodes nodes' : List BootNode} {u v d : String}

/-- One node declared twice over: its dependencies in any order. -/
structure Restated (node node' : BootNode) : Prop where
  name : node.name = node'.name
  kind : node.kind = node'.kind
  dependsOn : node.dependsOn.Perm node'.dependsOn

/-- One flock declared twice over: its nodes in any order, and the
dependencies of each. -/
def Redeclared (nodes nodes' : List BootNode) : Prop :=
  ∃ shuffled, nodes.Perm shuffled ∧ List.Forall₂ Restated shuffled nodes'

/-! ## The edge table -/

theorem Redeclared.exists_iff (h : Redeclared nodes nodes') {P : BootNode → Prop}
    (hP : ∀ node node', Restated node node' → (P node ↔ P node')) :
    (∃ node ∈ nodes, P node) ↔ ∃ node ∈ nodes', P node := by
  obtain ⟨shuffled, hperm, hall⟩ := h
  simp only [hperm.mem_iff]
  clear hperm
  induction hall with
  | nil => rfl
  | cons hab _ ih => simp only [List.mem_cons, exists_eq_or_imp, hP _ _ hab, ih]

theorem Redeclared.perm_filter (h : Redeclared nodes nodes') (p : BootNode → Bool)
    (hp : ∀ node node', Restated node node' → p node = p node') :
    ((nodes.filter p).map BootNode.name).Perm ((nodes'.filter p).map BootNode.name) := by
  obtain ⟨shuffled, hperm, hall⟩ := h
  refine ((hperm.filter p).map _).trans ?_
  clear hperm
  induction hall with
  | nil => exact .nil
  | @cons node node' _ _ hab _ ih =>
    rw [List.filter_cons, List.filter_cons, ← hp node node' hab]
    split
    · rw [List.map_cons, List.map_cons, hab.name]
      exact ih.cons _
    · exact ih

theorem Redeclared.namesOf_eq (h : Redeclared nodes nodes') : namesOf nodes = namesOf nodes' := by
  ext v
  rw [mem_namesOf, mem_namesOf]
  exact h.exists_iff fun node node' hr => by rw [hr.name]

theorem Redeclared.depends_iff (h : Redeclared nodes nodes') :
    Depends nodes u d ↔ Depends nodes' u d := by
  unfold Depends
  rw [h.namesOf_eq]
  refine and_congr_right fun _ => h.exists_iff fun node node' hr => ?_
  rw [hr.name, hr.dependsOn.mem_iff]

theorem getElem?_edges (edges : Edges) (v : String) :
    edges[v]? = if v ∈ edges then some (edges.deps v) else none := by
  by_cases hv : v ∈ edges
  · simp [hv, Edges.deps]
  · rw [if_neg hv, Std.ExtTreeMap.getElem?_eq_none hv]

theorem Redeclared.edges_eq (h : Redeclared nodes nodes') :
    (edgesOf nodes).2 = (edgesOf nodes').2 := by
  refine Std.ExtTreeMap.ext_getElem? fun v => ?_
  have hdeps : (edgesOf nodes).2.deps v = (edgesOf nodes').2.deps v := by
    ext d
    exact waits_edgesOf.trans (h.depends_iff.trans waits_edgesOf.symm)
  rw [getElem?_edges, getElem?_edges, hdeps]
  simp only [mem_edgesOf, h.namesOf_eq]

/-! ## The split -/

theorem sortedNames_eq (h : (nodes.map BootNode.name).Perm (nodes'.map BootNode.name)) :
    sortedNames nodes = sortedNames nodes' := by
  refine List.Perm.eq_of_pairwise' (List.pairwise_insertionSort _ _)
    (List.pairwise_insertionSort _ _) ?_
  exact (List.perm_insertionSort _ _).trans (h.trans (List.perm_insertionSort _ _).symm)

theorem Redeclared.split_eq (h : Redeclared nodes nodes') : split nodes = split nodes' := by
  unfold split
  rw [h.edges_eq]
  simp only [List.filter_filter, Split.mk.injEq, true_and]
  refine ⟨sortedNames_eq (h.perm_filter _ ?_), ?_, sortedNames_eq (h.perm_filter _ ?_)⟩
  · intro node node' hr
    rw [hr.name, hr.kind]
  · ext v
    rw [namesOf, namesOf, List.mem_toFinset, List.mem_toFinset]
    refine (h.perm_filter _ ?_).mem_iff
    intro node node' hr
    rw [hr.name, hr.kind]
  · intro node node' hr
    rw [hr.name, hr.kind]

theorem Redeclared.unresolved_perm (h : Redeclared nodes nodes') :
    (edgesOf nodes).1.Perm (edgesOf nodes').1 := by
  rw [edgesOf_unresolved, edgesOf_unresolved, h.namesOf_eq]
  obtain ⟨shuffled, hperm, hall⟩ := h
  refine (hperm.flatMap_right _).trans ?_
  -- from here only the dependencies of each node are reordered
  generalize namesOf nodes' = names
  clear hperm
  induction hall with
  | nil => exact .nil
  | @cons node node' _ _ hab _ ih =>
    rw [List.flatMap_cons, List.flatMap_cons, hab.name]
    exact ((hab.dependsOn.filter _).map _).append ih

/-- **Declaration order does not matter.** -/
theorem plan_redeclared (h : Redeclared nodes nodes') :
    (plan nodes).stages = (plan nodes').stages ∧ (plan nodes).knots = (plan nodes').knots ∧
      (plan nodes).cycles = (plan nodes').cycles ∧
      (plan nodes).unresolved.Perm (plan nodes').unresolved := by
  unfold plan
  rw [h.split_eq]
  exact ⟨rfl, rfl, rfl, h.unresolved_perm⟩

theorem plan_redeclared_pair :
    (plan [⟨"api", ["db", "cache"], .sheep⟩, ⟨"db", [], .sheep⟩]).stages =
      (plan [⟨"db", [], .sheep⟩, ⟨"api", ["cache", "db"], .sheep⟩]).stages :=
  (plan_redeclared (show Redeclared [⟨"api", ["db", "cache"], .sheep⟩, ⟨"db", [], .sheep⟩]
      [⟨"db", [], .sheep⟩, ⟨"api", ["cache", "db"], .sheep⟩] from
    ⟨[⟨"db", [], .sheep⟩, ⟨"api", ["db", "cache"], .sheep⟩], .swap _ _ _,
      .cons ⟨rfl, rfl, .refl _⟩ (.cons ⟨rfl, rfl, .swap _ _ _⟩ .nil)⟩)).1

end Graph

end Shep
