import Shep.Common.Layers
import Shep.Graph.Helpers.Knots

/-!
# Graph — the parts of the plan

The edge table in terms of the nodes, the nodes that hang off a knot, and
what one pass of Kahn's algorithm places. A pass is given a set on which no
walk closes and everything that set needs from outside it; it then leaves
nothing, and what it lays down is `Staged`.
-/

namespace Shep

namespace Graph

open Relation

variable {nodes : List BootNode} {edges : Edges} {u v d : String}

/-! ## The edge table -/

/-- A dependency of `u` that the flock has. -/
def Depends (nodes : List BootNode) (u d : String) : Prop :=
  d ∈ namesOf nodes ∧ ∃ node ∈ nodes, node.name = u ∧ d ∈ node.dependsOn

theorem mem_namesOf : v ∈ namesOf nodes ↔ ∃ node ∈ nodes, node.name = v := by
  simp [namesOf]

theorem deps_addNode (names : Finset String) (table : List Unresolved × Edges) (node : BootNode) :
    d ∈ (addNode names table node).2.deps u ↔
      d ∈ table.2.deps u ∨ d ∈ names ∧ node.name = u ∧ d ∈ node.dependsOn := by
  unfold addNode Edges.deps
  by_cases hu : node.name = u
  · subst hu
    simp only [Std.ExtTreeMap.getElem?_insert_self, Option.getD_some, Finset.mem_union,
      List.mem_toFinset, List.mem_filter, decide_eq_true_eq]
    tauto
  · rw [Std.ExtTreeMap.getElem?_insert]
    simp [hu]

theorem mem_addNode (names : Finset String) (table : List Unresolved × Edges) (node : BootNode) :
    u ∈ (addNode names table node).2 ↔ node.name = u ∨ u ∈ table.2 := by
  unfold addNode
  rw [Std.ExtTreeMap.mem_insert, Std.LawfulEqCmp.compare_eq_iff_eq]

theorem waits_edgesOf : (edgesOf nodes).2.Waits u d ↔ Depends nodes u d := by
  suffices h : ∀ (names : Finset String) (rest : List BootNode) (table : List Unresolved × Edges),
      d ∈ (rest.foldl (addNode names) table).2.deps u ↔
        d ∈ table.2.deps u ∨ d ∈ names ∧ ∃ node ∈ rest, node.name = u ∧ d ∈ node.dependsOn by
    unfold Edges.Waits edgesOf Depends
    rw [h]
    simp [Edges.deps]
  intro names rest
  induction rest with
  | nil => simp
  | cons node rest ih =>
    intro table
    rw [List.foldl_cons, ih, deps_addNode]
    simp only [List.mem_cons, exists_eq_or_imp]
    tauto

theorem mem_edgesOf : u ∈ (edgesOf nodes).2 ↔ u ∈ namesOf nodes := by
  suffices h : ∀ (names : Finset String) (rest : List BootNode) (table : List Unresolved × Edges),
      u ∈ (rest.foldl (addNode names) table).2 ↔ u ∈ table.2 ∨ ∃ node ∈ rest, node.name = u by
    rw [edgesOf, h, mem_namesOf]
    simp
  intro names rest
  induction rest with
  | nil => simp
  | cons node rest ih =>
    intro table
    rw [List.foldl_cons, ih, mem_addNode]
    simp only [List.mem_cons, exists_eq_or_imp]
    tauto

theorem edgesOf_unresolved : (edgesOf nodes).1 = nodes.flatMap fun node =>
    (node.dependsOn.filter fun target => target ∉ namesOf nodes).map fun target =>
      ⟨node.name, target⟩ := by
  suffices h : ∀ (names : Finset String) (rest : List BootNode) (table : List Unresolved × Edges),
      (rest.foldl (addNode names) table).1 = table.1 ++ rest.flatMap fun node =>
        (node.dependsOn.filter fun target => target ∉ names).map fun target =>
          ⟨node.name, target⟩ by
    rw [edgesOf, h]
    simp
  intro names rest
  induction rest with
  | nil => simp
  | cons node rest ih =>
    intro table
    rw [List.foldl_cons, ih, List.flatMap_cons, ← List.append_assoc]
    rfl

theorem Edges.mem_toList {edges : Edges} {e : String × Finset String} :
    e ∈ edges.toList ↔ e.1 ∈ edges ∧ e.2 = edges.deps e.1 := by
  obtain ⟨name, deps⟩ := e
  rw [Std.ExtTreeMap.mem_toList_iff_getElem?_eq_some, Std.ExtTreeMap.mem_iff_isSome_getElem?]
  unfold Edges.deps
  cases h : edges[name]? with
  | none => simp
  | some found => simp [eq_comm]

theorem Edges.mem_of_waits {edges : Edges} (h : edges.Waits u d) : u ∈ edges := by
  rw [← Std.ExtTreeMap.mem_keys]
  exact Edges.mem_keys_of_waits h

/-! ## What hangs off a knot -/

/-- `v` is outside `inACycle` and waits, at some remove, for a node of
it. -/
def Hangs (edges : Edges) (inACycle : Finset String) (v : String) : Prop :=
  v ∉ inACycle ∧ ∃ w ∈ inACycle, TransGen edges.Waits v w

theorem mem_grown {inACycle found : Finset String} : v ∈ grown edges inACycle found ↔
    v ∉ inACycle ∧ v ∉ found ∧ ∃ dep, edges.Waits v dep ∧ (dep ∈ inACycle ∨ dep ∈ found) := by
  unfold grown
  simp only [List.mem_toFinset, List.mem_map, List.mem_filter, decide_eq_true_eq, Edges.mem_toList]
  constructor
  · rintro ⟨e, ⟨⟨-, hdeps⟩, hcycle, hfound, dep, hdep, hor⟩, rfl⟩
    rw [hdeps] at hdep
    exact ⟨hcycle, hfound, dep, hdep, hor⟩
  · rintro ⟨hcycle, hfound, dep, hdep, hor⟩
    exact ⟨(v, edges.deps v), ⟨⟨Edges.mem_of_waits hdep, rfl⟩, hcycle, hfound, dep, hdep, hor⟩, rfl⟩

theorem grown_subset_mentioned (edges : Edges) (inACycle found : Finset String) :
    grown edges inACycle found ⊆ edges.mentioned := by
  intro v hv
  obtain ⟨-, -, dep, hdep, -⟩ := mem_grown.1 hv
  exact Edges.mem_mentioned_of_mem_keys (Edges.mem_keys_of_waits hdep)

theorem hangs_of_mem_grown {inACycle found : Finset String}
    (hfound : ∀ w ∈ found, Hangs edges inACycle w) (hv : v ∈ grown edges inACycle found) :
    Hangs edges inACycle v := by
  obtain ⟨hcycle, -, dep, hdep, hor⟩ := mem_grown.1 hv
  refine ⟨hcycle, ?_⟩
  rcases hor with hin | hin
  · exact ⟨dep, hin, .single hdep⟩
  · obtain ⟨-, w, hw, hreach⟩ := hfound dep hin
    exact ⟨w, hw, .head hdep hreach⟩

/-- The rounds end with nothing left to add. -/
theorem growFrom_spec (edges : Edges) (inACycle : Finset String) (fuel : ℕ) (found : Finset String)
    (hfound : ∀ w ∈ found, Hangs edges inACycle w) (hsub : found ⊆ edges.mentioned)
    (hfuel : edges.mentioned.card < found.card + fuel) :
    (∀ w ∈ growFrom edges inACycle fuel found, Hangs edges inACycle w) ∧
      grown edges inACycle (growFrom edges inACycle fuel found) = ∅ := by
  induction fuel generalizing found with
  | zero =>
    have hle := Finset.card_le_card hsub
    omega
  | succ fuel ih =>
    unfold growFrom
    by_cases hmore : grown edges inACycle found = ∅
    · simp only [hmore, if_true]
      exact ⟨hfound, trivial⟩
    · simp only [if_neg hmore]
      refine ih _ ?_ (Finset.union_subset hsub (grown_subset_mentioned _ _ _)) ?_
      · intro w hw
        rcases Finset.mem_union.1 hw with hw | hw
        · exact hfound w hw
        · exact hangs_of_mem_grown hfound hw
      · -- a round that adds something adds something new
        have hdisj : Disjoint found (grown edges inACycle found) :=
          Finset.disjoint_left.2 fun w hw hg => (mem_grown.1 hg).2.1 hw
        have hpos := Finset.card_pos.2 (Finset.nonempty_iff_ne_empty.2 hmore)
        rw [Finset.card_union_of_disjoint hdisj]
        omega

theorem mem_dependsOnACycle {inACycle : Finset String} :
    v ∈ dependsOnACycle edges inACycle ↔ Hangs edges inACycle v := by
  obtain ⟨hsound, hdone⟩ := growFrom_spec edges inACycle (edges.mentioned.card + 1) ∅
    (by simp) (by simp) (by simp)
  refine ⟨hsound v, ?_⟩
  rintro ⟨hnot, w, hw, hreach⟩
  have hclosed : ∀ u dep, edges.Waits u dep → u ∉ inACycle →
      dep ∈ inACycle ∨ dep ∈ dependsOnACycle edges inACycle →
      u ∈ dependsOnACycle edges inACycle := by
    intro u dep hdep hu hor
    by_contra hout
    have hin : u ∈ grown edges inACycle (dependsOnACycle edges inACycle) :=
      mem_grown.2 ⟨hu, hout, dep, hdep, hor⟩
    rw [dependsOnACycle, hdone] at hin
    exact absurd hin (Finset.notMem_empty u)
  -- along the walk to the cycle, from its far end
  induction hreach using TransGen.head_induction_on with
  | single he => exact hclosed _ _ he hnot (Or.inl hw)
  | @head u dep he _ ih =>
    by_cases hdep : dep ∈ inACycle
    · exact hclosed u dep he hnot (Or.inl hdep)
    · exact hclosed u dep he hnot (Or.inr (ih hdep))

/-! ## A pass of Kahn's algorithm -/

theorem mem_readyAmong {placed left : Finset String} : v ∈ readyAmong edges placed left ↔
    v ∈ left ∧ ∀ dep, edges.Waits v dep → dep ∈ placed ∨ dep ∉ left :=
  Finset.mem_filter

/-- **What a pass places**: everything it was given, each node once, in
order, and after what it waits for. -/
theorem kahnFrom_spec (edges : Edges) (fuel : ℕ) (placed left : Finset String) (before : Set String)
    (hacyclic : ∀ v ∈ left, ¬ TransGen edges.Waits v v) (hdisj : Disjoint placed left)
    (hneeds : ∀ u ∈ left, ∀ d, edges.Waits u d → d ∉ left → d ∈ before)
    (hfuel : left.card ≤ fuel) :
    (kahnFrom edges fuel placed left).2 = ∅ ∧
      (∀ stage ∈ (kahnFrom edges fuel placed left).1, stage ≠ [] ∧ stage.Pairwise (· < ·)) ∧
      (kahnFrom edges fuel placed left).1.flatten.Nodup ∧
      (∀ v, v ∈ (kahnFrom edges fuel placed left).1.flatten ↔ v ∈ left) ∧
      Staged edges.Waits before (kahnFrom edges fuel placed left).1 := by
  induction fuel generalizing placed left before with
  | zero =>
    have hempty : left = ∅ := Finset.card_eq_zero.1 (by omega)
    subst hempty
    simp [kahnFrom, Staged]
  | succ fuel ih =>
    unfold kahnFrom
    by_cases hempty : left = ∅
    · subst hempty
      simp [Staged]
    · -- no walk closes in what is left, so something of it waits for nothing there
      obtain ⟨sink, hsink, hgoes⟩ := exists_sink left (Finset.nonempty_iff_ne_empty.2 hempty)
        hacyclic
      have hready : readyAmong edges placed left ≠ ∅ := by
        refine Finset.nonempty_iff_ne_empty.1 ⟨sink, mem_readyAmong.2 ⟨hsink, ?_⟩⟩
        exact fun dep hdep => Or.inr fun hin => hgoes dep hin hdep
      have hsub : readyAmong edges placed left ⊆ left := Finset.filter_subset _ _
      have hlt : (left \ readyAmong edges placed left).card < left.card := by
        have hpos := Finset.card_pos.2 (Finset.nonempty_iff_ne_empty.2 hready)
        have hle := Finset.card_le_card hsub
        rw [Finset.card_sdiff_of_subset hsub]
        omega
      have hrest := ih (placed ∪ readyAmong edges placed left)
        (left \ readyAmong edges placed left)
        (before ∪ {v | v ∈ listing (readyAmong edges placed left)})
        (fun v hv => hacyclic v (Finset.mem_sdiff.1 hv).1)
        (by
          refine Finset.disjoint_left.2 fun v hv hl => ?_
          obtain ⟨hin, hnot⟩ := Finset.mem_sdiff.1 hl
          rcases Finset.mem_union.1 hv with hv | hv
          · exact Finset.disjoint_left.1 hdisj hv hin
          · exact hnot hv)
        (by
          intro u hu d hd hnot
          by_cases hr : d ∈ readyAmong edges placed left
          · exact Or.inr (mem_listing.2 hr)
          · refine Or.inl (hneeds u (Finset.mem_sdiff.1 hu).1 d hd fun hin => hnot ?_)
            exact Finset.mem_sdiff.2 ⟨hin, hr⟩)
        (by omega)
      obtain ⟨hleft, hstages, hnodup, hmem, hstaged⟩ := hrest
      simp only [if_neg hempty, if_neg hready]
      refine ⟨hleft, ?_, ?_, fun v => ?_, fun u hu d hd => ?_, hstaged⟩
      · intro stage hstage
        rcases List.mem_cons.1 hstage with rfl | hstage
        · exact ⟨mt listing_eq_nil.1 hready, pairwise_listing _⟩
        · exact hstages stage hstage
      · rw [List.flatten_cons]
        refine List.nodup_append.2 ⟨nodup_listing _, hnodup, ?_⟩
        rintro v hv w hw rfl
        exact (Finset.mem_sdiff.1 ((hmem v).1 hw)).2 (mem_listing.1 hv)
      · rw [List.flatten_cons, List.mem_append, hmem, mem_listing, Finset.mem_sdiff]
        constructor
        · rintro (hv | hv)
          · exact hsub hv
          · exact hv.1
        · intro hv
          by_cases hr : v ∈ readyAmong edges placed left
          · exact Or.inl hr
          · exact Or.inr ⟨hv, hr⟩
      · obtain ⟨hin, hmet⟩ := mem_readyAmong.1 (mem_listing.1 hu)
        rcases hmet d hd with hp | hl
        · exact hneeds u hin d hd (Finset.disjoint_left.1 hdisj hp)
        · exact hneeds u hin d hd hl

end Graph

end Shep
