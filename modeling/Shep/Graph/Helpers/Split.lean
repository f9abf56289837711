import Shep.Graph.Helpers.Stages

/-!
# Graph — how the plan sorts the flock

The five parts `plan` sorts the names into, each by what puts a name there,
and the two passes over the parts that have an order of their own.
-/

namespace Shep

namespace Graph

open Relation

variable {nodes : List BootNode} {u v d : String}

/-- `v` is a dog named to boot first. -/
def BootsFirst (nodes : List BootNode) (v : String) : Prop :=
  ∃ node ∈ nodes, node.name = v ∧ node.kind = .dog true

/-- `v` is a dog that does not boot first and that nobody depends on. -/
def Undepended (nodes : List BootNode) (v : String) : Prop :=
  (∃ node ∈ nodes, node.name = v ∧ node.kind = .dog false) ∧ ∀ u, ¬ Depends nodes u v

theorem waits_eq_depends (nodes : List BootNode) : (edgesOf nodes).2.Waits = Depends nodes := by
  funext u d
  exact propext waits_edgesOf

/-! ## The parts -/

theorem mem_foldr_union {α : Type*} {l : List α} {f : α → Finset String} :
    v ∈ l.foldr (fun a names => f a ∪ names) ∅ ↔ ∃ a ∈ l, v ∈ f a := by
  induction l with
  | nil => simp
  | cons a l ih => simp [ih]

theorem mem_inACycle : v ∈ (split nodes).inACycle ↔ TransGen (Depends nodes) v v := by
  show v ∈ (knots (edgesOf nodes).2).foldr (fun k names => k ∪ names) ∅ ↔ _
  rw [mem_foldr_union, exists_mem_knots, waits_eq_depends]

theorem mem_afterCycle : v ∈ (split nodes).afterCycle ↔
    v ∉ (split nodes).inACycle ∧
      ∃ w ∈ (split nodes).inACycle, TransGen (Depends nodes) v w := by
  show v ∈ dependsOnACycle (edgesOf nodes).2 (split nodes).inACycle ↔ _
  rw [mem_dependsOnACycle, Hangs, waits_eq_depends]

theorem mem_dependedOn :
    d ∈ (edgesOf nodes).2.toList.foldr (fun e names => e.2 ∪ names) ∅ ↔ ∃ u, Depends nodes u d := by
  rw [mem_foldr_union, ← waits_eq_depends]
  constructor
  · rintro ⟨e, he, hd⟩
    rw [(Edges.mem_toList.1 he).2] at hd
    exact ⟨e.1, hd⟩
  · rintro ⟨u, hu⟩
    exact ⟨(u, (edgesOf nodes).2.deps u), Edges.mem_toList.2 ⟨Edges.mem_of_waits hu, rfl⟩, hu⟩

theorem mem_sortedNames : v ∈ sortedNames nodes ↔ ∃ node ∈ nodes, node.name = v := by
  simp [sortedNames]

theorem sortedNames_pairwise (h : (nodes.map BootNode.name).Nodup) :
    (sortedNames nodes).Pairwise (· < ·) := by
  have hle : (sortedNames nodes).Pairwise (· ≤ ·) := List.pairwise_insertionSort _ _
  have hnodup : (sortedNames nodes).Nodup := (List.perm_insertionSort _ _).nodup_iff.2 h
  exact (hle.and hnodup).imp fun hab => lt_of_le_of_ne hab.1 hab.2

theorem pairwise_first (hnames : (nodes.map BootNode.name).Nodup) :
    (split nodes).first.Pairwise (· < ·) :=
  sortedNames_pairwise (hnames.sublist ((List.filter_sublist.trans List.filter_sublist).map _))

theorem pairwise_last (hnames : (nodes.map BootNode.name).Nodup) :
    (split nodes).last.Pairwise (· < ·) :=
  sortedNames_pairwise (hnames.sublist ((List.filter_sublist.trans List.filter_sublist).map _))

section Dogs

variable (hnames : (nodes.map BootNode.name).Nodup)
  (hdogs : ∀ node ∈ nodes, node.kind ≠ .sheep → node.dependsOn = [])

theorem mem_names_of_cycle (h : v ∈ (split nodes).inACycle) : v ∈ namesOf nodes := by
  obtain ⟨w, he, -⟩ := TransGen.head'_iff.1 (mem_inACycle.1 h)
  obtain ⟨-, node, hnode, hname, -⟩ := he
  exact mem_namesOf.2 ⟨node, hnode, hname⟩

theorem mem_names_of_after (h : v ∈ (split nodes).afterCycle) : v ∈ namesOf nodes := by
  obtain ⟨-, w, -, hreach⟩ := mem_afterCycle.1 h
  obtain ⟨x, he, -⟩ := TransGen.head'_iff.1 hreach
  obtain ⟨-, node, hnode, hname, -⟩ := he
  exact mem_namesOf.2 ⟨node, hnode, hname⟩

theorem node_unique (hnames : (nodes.map BootNode.name).Nodup) {n m : BootNode} (hn : n ∈ nodes)
    (hm : m ∈ nodes) (h : n.name = m.name) : n = m :=
  List.inj_on_of_nodup_map hnames hn hm h

theorem not_cyclic_of_no_depends (h : ∀ d, ¬ Depends nodes v d) :
    v ∉ (split nodes).inACycle ∧ v ∉ (split nodes).afterCycle := by
  constructor
  · intro hin
    obtain ⟨w, he, -⟩ := TransGen.head'_iff.1 (mem_inACycle.1 hin)
    exact h w he
  · intro hin
    obtain ⟨-, w, -, hreach⟩ := mem_afterCycle.1 hin
    obtain ⟨x, he, -⟩ := TransGen.head'_iff.1 hreach
    exact h x he

include hnames hdogs

theorem dog_no_depends {first : Bool} (h : ∃ node ∈ nodes, node.name = v ∧ node.kind = .dog first)
    (d : String) : ¬ Depends nodes v d := by
  rintro ⟨-, node, hnode, hname, hd⟩
  obtain ⟨dog, hdog, hdname, hkind⟩ := h
  obtain rfl := node_unique hnames hnode hdog (hname.trans hdname.symm)
  rw [hdogs node hnode (by simp [hkind])] at hd
  exact absurd hd List.not_mem_nil

theorem mem_first : v ∈ (split nodes).first ↔ BootsFirst nodes v := by
  have hfree := fun (h : ∃ node ∈ nodes, node.name = v ∧ node.kind = .dog true) =>
    not_cyclic_of_no_depends (dog_no_depends hnames hdogs h)
  simp only [split, mem_sortedNames, List.mem_filter, decide_eq_true_eq]
  constructor
  · rintro ⟨node, ⟨⟨hnode, -⟩, hkind⟩, hname⟩
    exact ⟨node, hnode, hname, hkind⟩
  · rintro ⟨node, hnode, hname, hkind⟩
    obtain ⟨hcycle, hafter⟩ := hfree ⟨node, hnode, hname, hkind⟩
    exact ⟨node, ⟨⟨hnode, hname ▸ hcycle, hname ▸ hafter⟩, hkind⟩, hname⟩

theorem mem_last : v ∈ (split nodes).last ↔ Undepended nodes v := by
  have hfree := fun (h : ∃ node ∈ nodes, node.name = v ∧ node.kind = .dog false) =>
    not_cyclic_of_no_depends (dog_no_depends hnames hdogs h)
  simp only [split, mem_sortedNames, List.mem_filter, decide_eq_true_eq, mem_dependedOn]
  constructor
  · rintro ⟨node, ⟨⟨hnode, -⟩, hkind, hnot⟩, hname⟩
    exact ⟨⟨node, hnode, hname, hkind⟩, fun u hu => hnot ⟨u, hname ▸ hu⟩⟩
  · rintro ⟨⟨node, hnode, hname, hkind⟩, hnot⟩
    obtain ⟨hcycle, hafter⟩ := hfree ⟨node, hnode, hname, hkind⟩
    refine ⟨node, ⟨⟨hnode, hname ▸ hcycle, hname ▸ hafter⟩, hkind, ?_⟩, hname⟩
    rintro ⟨u, hu⟩
    exact hnot u (hname ▸ hu)

omit hdogs in
theorem mem_ordered : v ∈ (split nodes).ordered ↔ v ∈ namesOf nodes ∧
    v ∉ (split nodes).inACycle ∧ v ∉ (split nodes).afterCycle ∧ ¬ BootsFirst nodes v ∧
      ¬ Undepended nodes v := by
  show v ∈ namesOf _ ↔ _
  rw [mem_namesOf, mem_namesOf]
  simp only [List.mem_filter, decide_eq_true_eq, mem_dependedOn]
  constructor
  · rintro ⟨node, ⟨⟨hnode, hcycle, hafter⟩, hkind, hlast⟩, rfl⟩
    refine ⟨⟨node, hnode, rfl⟩, hcycle, hafter, ?_, ?_⟩
    · rintro ⟨dog, hdog, hname, hfirst⟩
      exact hkind (node_unique hnames hdog hnode hname ▸ hfirst)
    · rintro ⟨⟨dog, hdog, hname, hk⟩, hnot⟩
      refine hlast ⟨node_unique hnames hdog hnode hname ▸ hk, ?_⟩
      rintro ⟨u, hu⟩
      exact hnot u hu
  · rintro ⟨⟨node, hnode, rfl⟩, hcycle, hafter, hfirst, hlast⟩
    refine ⟨node, ⟨⟨hnode, hcycle, hafter⟩, ?_, ?_⟩, rfl⟩
    · exact fun hk => hfirst ⟨node, hnode, rfl, hk⟩
    · rintro ⟨hk, hnot⟩
      exact hlast ⟨⟨node, hnode, rfl, hk⟩, fun u hu => hnot ⟨u, hu⟩⟩

/-- **Every name is in one of the parts.** -/
theorem mem_parts : v ∈ namesOf nodes ↔ v ∈ (split nodes).first ∨ v ∈ (split nodes).ordered ∨
    v ∈ (split nodes).inACycle ∨ v ∈ (split nodes).afterCycle ∨ v ∈ (split nodes).last := by
  rw [mem_first hnames hdogs, mem_last hnames hdogs, mem_ordered hnames]
  constructor
  · intro hv
    by_cases hfirst : BootsFirst nodes v
    · exact Or.inl hfirst
    by_cases hcycle : v ∈ (split nodes).inACycle
    · exact Or.inr (Or.inr (Or.inl hcycle))
    by_cases hafter : v ∈ (split nodes).afterCycle
    · exact Or.inr (Or.inr (Or.inr (Or.inl hafter)))
    by_cases hlast : Undepended nodes v
    · exact Or.inr (Or.inr (Or.inr (Or.inr hlast)))
    · exact Or.inr (Or.inl ⟨hv, hcycle, hafter, hfirst, hlast⟩)
  · rintro (⟨node, hnode, hname, -⟩ | ⟨hv, -⟩ | hv | hv | ⟨⟨node, hnode, hname, -⟩, -⟩)
    · exact mem_namesOf.2 ⟨node, hnode, hname⟩
    · exact hv
    · exact mem_names_of_cycle hv
    · exact mem_names_of_after hv
    · exact mem_namesOf.2 ⟨node, hnode, hname⟩

/-! ## What each part waits for -/

omit hdogs in
theorem ordered_needs (hu : u ∈ (split nodes).ordered) (he : Depends nodes u d) :
    d ∈ (split nodes).ordered ∨ BootsFirst nodes d := by
  obtain ⟨-, hcycle, hafter, -, -⟩ := (mem_ordered hnames).1 hu
  by_cases hfirst : BootsFirst nodes d
  · exact Or.inr hfirst
  refine Or.inl ((mem_ordered hnames).2 ⟨he.1, ?_, ?_, hfirst, fun hlast => hlast.2 u he⟩)
  · exact fun hd => hafter (mem_afterCycle.2 ⟨hcycle, d, hd, .single he⟩)
  · intro hd
    obtain ⟨-, w, hw, hreach⟩ := mem_afterCycle.1 hd
    exact hafter (mem_afterCycle.2 ⟨hcycle, w, hw, .head he hreach⟩)

omit hdogs in
theorem after_needs (he : Depends nodes u d) : d ∈ (split nodes).afterCycle ∨
    d ∈ (split nodes).inACycle ∨ d ∈ (split nodes).ordered ∨ BootsFirst nodes d := by
  by_cases hafter : d ∈ (split nodes).afterCycle
  · exact Or.inl hafter
  by_cases hcycle : d ∈ (split nodes).inACycle
  · exact Or.inr (Or.inl hcycle)
  by_cases hfirst : BootsFirst nodes d
  · exact Or.inr (Or.inr (Or.inr hfirst))
  · refine Or.inr (Or.inr (Or.inl ((mem_ordered hnames).2 ?_)))
    exact ⟨he.1, hcycle, hafter, hfirst, fun hlast => hlast.2 u he⟩

/-! ## The two passes -/

theorem first_disjoint_ordered :
    Disjoint (split nodes).first.toFinset (split nodes).ordered := by
  refine Finset.disjoint_left.2 fun v hv ho => ?_
  rw [List.mem_toFinset, mem_first hnames hdogs] at hv
  exact ((mem_ordered hnames).1 ho).2.2.2.1 hv

theorem kahn_ordered_spec (before : Set String) (hbefore : ∀ d, BootsFirst nodes d → d ∈ before) :
    (kahn (split nodes).ordered (split nodes).edges (split nodes).first.toFinset).2 = ∅ ∧
      (∀ stage ∈ (kahn (split nodes).ordered (split nodes).edges (split nodes).first.toFinset).1,
        stage ≠ [] ∧ stage.Pairwise (· < ·)) ∧
      (kahn (split nodes).ordered (split nodes).edges
        (split nodes).first.toFinset).1.flatten.Nodup ∧
      (∀ v, v ∈ (kahn (split nodes).ordered (split nodes).edges
        (split nodes).first.toFinset).1.flatten ↔ v ∈ (split nodes).ordered) ∧
      Staged (Depends nodes) before
        (kahn (split nodes).ordered (split nodes).edges (split nodes).first.toFinset).1 := by
  rw [← waits_eq_depends]
  refine kahnFrom_spec (edgesOf nodes).2 _ _ _ _ ?_ (first_disjoint_ordered hnames hdogs) ?_ le_rfl
  · intro v hv hcycle
    rw [waits_eq_depends] at hcycle
    exact ((mem_ordered hnames).1 hv).2.1 (mem_inACycle.2 hcycle)
  · intro u hu d he hnot
    rw [waits_eq_depends] at he
    exact hbefore d ((ordered_needs hnames hu he).resolve_left hnot)

omit hdogs in
theorem kahn_after_spec (before : Set String)
    (hbefore : ∀ d, d ∈ (split nodes).inACycle ∨ d ∈ (split nodes).ordered ∨ BootsFirst nodes d →
      d ∈ before) :
    (kahn (split nodes).afterCycle (split nodes).edges ∅).2 = ∅ ∧
      (∀ stage ∈ (kahn (split nodes).afterCycle (split nodes).edges ∅).1,
        stage ≠ [] ∧ stage.Pairwise (· < ·)) ∧
      (kahn (split nodes).afterCycle (split nodes).edges ∅).1.flatten.Nodup ∧
      (∀ v, v ∈ (kahn (split nodes).afterCycle (split nodes).edges ∅).1.flatten ↔
        v ∈ (split nodes).afterCycle) ∧
      Staged (Depends nodes) before (kahn (split nodes).afterCycle (split nodes).edges ∅).1 := by
  rw [← waits_eq_depends]
  refine kahnFrom_spec (edgesOf nodes).2 _ _ _ _ ?_ (Finset.disjoint_empty_left _) ?_ le_rfl
  · intro v hv hcycle
    rw [waits_eq_depends] at hcycle
    exact (mem_afterCycle.1 hv).1 (mem_inACycle.2 hcycle)
  · intro u _ d he hnot
    rw [waits_eq_depends] at he
    exact hbefore d ((after_needs hnames he).resolve_left hnot)

end Dogs

end Graph

end Shep
