import Shep.Graph.Helpers.Knots
import Shep.Graph.Plan
import Shep.Walk.Waiting

/-!
# Walk — a request in order

**`request_ordered`**: the stages of a batch and of a walk hold what the
request names and nothing else, each name once, and after what it waits for
through other names; a batch is refused exactly for a cycle one of its apps
is on; and a walk is held for exactly the names another one waits for. All
that is in a cycle has one stage, and what hangs off a cycle stands below
it, so where one cycle waits for what hangs off another the order is lost
(`order_through_cycle`).
-/

namespace Shep

namespace Walk

open Graph Supervisor Relation

variable {edges registry : Registry} {u v d : String} {i j : ℕ}

/-! ## The plan of the registry -/

/-- `v` waits for itself. -/
def Registry.OnCycle (edges : Registry) (v : String) : Prop := TransGen edges.Waits v v

/-- `v` is on no cycle, and waits for one. -/
def Registry.Hangs (edges : Registry) (v : String) : Prop :=
  ¬ edges.OnCycle v ∧ ∃ w, edges.OnCycle w ∧ TransGen edges.Waits v w

/-- `u` waits for `d`, through names that are on no cycle. -/
def Registry.Clear (edges : Registry) (u d : String) : Prop :=
  TransGen (fun a b => edges.Waits a b ∧ ¬ edges.OnCycle a) u d

/-- `u` waits for `d`, and not through a cycle alone where `d` hangs off one
itself. -/
def Registry.Kept (edges : Registry) (u d : String) : Prop :=
  TransGen edges.Waits u d ∧ (edges.Clear u d ∨ ¬ edges.Hangs d)

/-- The nodes `plan_for_names` makes. -/
def nodesOf (edges : Registry) : List BootNode := edges.toList.map fun e => ⟨e.1, e.2, .sheep⟩

theorem names_nodesOf : (nodesOf edges).map BootNode.name = edges.toList.map Prod.fst := by
  rw [nodesOf, List.map_map]
  rfl

theorem mem_names_nodesOf : v ∈ (nodesOf edges).map BootNode.name ↔ v ∈ edges := by
  rw [names_nodesOf, List.mem_map]
  constructor
  · rintro ⟨⟨_, listed⟩, hin, rfl⟩
    exact Std.ExtTreeMap.mem_iff_isSome_getElem?.2 (by simp [Table.mem_toList.1 hin])
  · intro hin
    exact ⟨(v, edges[v]), Table.mem_toList.2 (Std.ExtTreeMap.getElem?_eq_some_getElem hin), rfl⟩

theorem depends_nodesOf : Depends (nodesOf edges) u d ↔ edges.Waits u d ∧ d ∈ edges := by
  rw [Depends, namesOf, List.mem_toFinset, mem_names_nodesOf, and_comm]
  refine and_congr_left fun _ => ?_
  simp only [nodesOf, List.mem_map, Registry.Waits, Registry.listed]
  constructor
  · rintro ⟨_, ⟨⟨_, listed⟩, hin, rfl⟩, rfl, hd⟩
    simpa [Table.mem_toList.1 hin] using hd
  · intro hd
    cases hat : edges[u]? with
    | none => simp [hat] at hd
    | some listed => exact ⟨_, ⟨(u, listed), Table.mem_toList.2 hat, rfl⟩, rfl, by simpa [hat] using hd⟩

theorem transGen_depends (hd : d ∈ edges) :
    TransGen (Depends (nodesOf edges)) u d ↔ TransGen edges.Waits u d := by
  constructor
  · exact TransGen.mono (fun _ _ h => (depends_nodesOf.1 h).1) _ _
  · intro h
    induction h using TransGen.head_induction_on with
    | single he => exact .single (depends_nodesOf.2 ⟨he, hd⟩)
    | head he hrest ih =>
      obtain ⟨_, hnext, -⟩ := TransGen.head'_iff.1 hrest
      exact .head (depends_nodesOf.2 ⟨he, mem_of_waits hnext⟩) ih

theorem mem_of_onCycle (h : edges.OnCycle v) : v ∈ edges := by
  obtain ⟨_, hnext, -⟩ := TransGen.head'_iff.1 h
  exact mem_of_waits hnext

theorem onCycle_iff : TransGen (Depends (nodesOf edges)) v v ↔ edges.OnCycle v := by
  constructor
  · exact TransGen.mono (fun _ _ h => (depends_nodesOf.1 h).1) _ _
  · exact fun h => (transGen_depends (mem_of_onCycle h)).2 h

theorem orders_planForNames (edges : Registry) : (planForNames edges).Orders (nodesOf edges) := by
  have hnames : ((nodesOf edges).map BootNode.name).Nodup := by
    rw [names_nodesOf]
    exact Table.nodup_keys edges
  have hdogs : ∀ node ∈ nodesOf edges, node.kind ≠ .sheep → node.dependsOn = [] := by
    intro node hnode hkind
    simp only [nodesOf, List.mem_map] at hnode
    obtain ⟨_, -, rfl⟩ := hnode
    exact absurd rfl hkind
  exact orders_plan hnames hdogs

theorem knotted_planForNames : (planForNames edges).Knotted v ↔ edges.OnCycle v := by
  rw [planForNames, ← nodesOf, knotted_plan, mem_inACycle, onCycle_iff]

theorem nodup_planForNames : (planForNames edges).stages.flatten.Nodup :=
  (orders_planForNames edges).once.nodup_iff.2 (names_nodesOf ▸ Table.nodup_keys edges)

theorem mem_planForNames : v ∈ (planForNames edges).stages.flatten ↔ v ∈ edges := by
  rw [(orders_planForNames edges).once.mem_iff, mem_names_nodesOf]

theorem clear_or_through (hu : ¬ edges.OnCycle u) (h : TransGen edges.Waits u d) :
    edges.Clear u d ∨ ∃ w, edges.OnCycle w ∧ TransGen edges.Waits u w ∧ TransGen edges.Waits w d := by
  induction h using TransGen.head_induction_on with
  | single he => exact .inl (.single ⟨he, hu⟩)
  | @head a c he hrest ih =>
    by_cases hc : edges.OnCycle c
    · exact .inr ⟨c, hc, .single he, hrest⟩
    · rcases ih hc with hclear | ⟨w, hw, hto, hfrom⟩
      · exact .inl (.head ⟨he, hu⟩ hclear)
      · exact .inr ⟨w, hw, .head he hto, hfrom⟩

theorem below_cycle {w : String} (hw : edges.OnCycle w) (hv : ¬ edges.OnCycle v)
    (hi : Placed (planForNames edges).stages i w) (hj : Placed (planForNames edges).stages j v) :
    i < j ↔ ∃ w, edges.OnCycle w ∧ TransGen edges.Waits v w := by
  have hsheep : ¬ Undepended (nodesOf edges) v := by
    rintro ⟨⟨node, hnode, -, hkind⟩, -⟩
    simp only [nodesOf, List.mem_map] at hnode
    obtain ⟨_, -, rfl⟩ := hnode
    cases hkind
  rw [(orders_planForNames edges).after w v i j (knotted_planForNames.2 hw) hi
    (mt knotted_planForNames.1 hv) hsheep hj]
  simp only [knotted_planForNames]
  exact exists_congr fun w => and_congr_right fun hw => transGen_depends (mem_of_onCycle hw)

theorem placed_of_mem (hv : v ∈ edges) : ∃ i, Placed (planForNames edges).stages i v :=
  exists_placed_iff.2 (mem_planForNames.2 hv)

theorem earlier_of_clear (hd : d ∈ edges) (h : edges.Clear u d)
    (hi : Placed (planForNames edges).stages i u) (hj : Placed (planForNames edges).stages j d) :
    j < i := by
  induction h using TransGen.head_induction_on generalizing i with
  | single he =>
    obtain ⟨k, hlt, hk⟩ := (orders_planForNames edges).earlier _ i (mt knotted_planForNames.1 he.2) hi d
      (depends_nodesOf.2 ⟨he.1, hd⟩)
    rwa [hj.unique nodup_planForNames hk]
  | head he hrest ih =>
    obtain ⟨_, hnext, -⟩ := TransGen.head'_iff.1 hrest
    obtain ⟨k, hlt, hk⟩ := (orders_planForNames edges).earlier _ i (mt knotted_planForNames.1 he.2) hi _
      (depends_nodesOf.2 ⟨he.1, mem_of_waits hnext.1⟩)
    exact (ih hk).trans hlt

/-- **The order of the plan**: what a name on no cycle waits for stands above
it, but for what hangs off a cycle and is waited for through one alone. -/
theorem earlier_in_plan (hu : ¬ edges.OnCycle u) (hd : d ∈ edges) (hkept : edges.Kept u d)
    (hi : Placed (planForNames edges).stages i u) (hj : Placed (planForNames edges).stages j d) :
    j < i := by
  obtain ⟨h, hkept⟩ := hkept
  rcases clear_or_through hu h with hclear | ⟨w, hw, hto, hfrom⟩
  · exact earlier_of_clear hd hclear hi hj
  rcases hkept with hclear | hhangs
  · exact earlier_of_clear hd hclear hi hj
  by_cases hcycle : edges.OnCycle d
  · exact (below_cycle hcycle hu hj hi).2 ⟨d, hcycle, h⟩
  · -- The cycle stands between the two.
    obtain ⟨k, hk⟩ := placed_of_mem (mem_of_onCycle hw)
    have habove : k < i := (below_cycle hw hu hk hi).2 ⟨w, hw, hto⟩
    have hbelow : ¬ k < j := fun hlt => hhangs ⟨hcycle, (below_cycle hw hcycle hk hj).1 hlt⟩
    have hne : k ≠ j := by
      rintro rfl
      exact hcycle (knotted_planForNames.1
        (((orders_planForNames edges).together w d k (knotted_planForNames.2 hw) hk).1 hj))
    omega

/-! ## The cut -/

variable {names : Finset String} {stages later : List (List String)}

theorem cut_append : cut names (stages ++ later) = cut names stages ++ cut names later := by
  simp [cut]

theorem flatten_cut : (cut names stages).flatten = stages.flatten.filter fun name => name ∈ names := by
  induction stages with
  | nil => rfl
  | cons stage stages ih =>
    rw [← List.singleton_append, cut_append, List.flatten_append, ih, List.flatten_append,
      List.filter_append]
    congr 1
    cases hstage : stage.filter fun name => name ∈ names <;> simp [cut, hstage]

theorem mem_cut : v ∈ (cut names stages).flatten ↔ v ∈ stages.flatten ∧ v ∈ names := by
  rw [flatten_cut, List.mem_filter, decide_eq_true_eq]

theorem earlier_in_cut (hnodup : stages.flatten.Nodup)
    (h : ∀ i j, Placed stages i u → Placed stages j d → j < i)
    (hi : Placed (cut names stages) i u) (hj : Placed (cut names stages) j d) : j < i := by
  obtain ⟨huin, hunames⟩ := mem_cut.1 hi.mem
  obtain ⟨hdin, hdnames⟩ := mem_cut.1 hj.mem
  obtain ⟨m, hm⟩ := exists_placed_iff.2 huin
  obtain ⟨n, hn⟩ := exists_placed_iff.2 hdin
  obtain ⟨hd, hu⟩ := hn.split hm (h m n hm hn)
  rw [← List.take_append_drop m stages, cut_append] at hi hj
  refine Placed.lt_of_append ?_ (mem_cut.2 ⟨hd, hdnames⟩) (mem_cut.2 ⟨hu, hunames⟩) hj hi
  rw [← cut_append, List.take_append_drop, flatten_cut]
  exact hnodup.filter _

/-! ## A batch -/

/-- What the combined graph holds of a name: the last word of the batch, the
record, or a dog's place. -/
theorem getElem?_combined (dogNames : List String) (apps : List App) (v : String) :
    (combined registry dogNames apps)[v]? =
      (((apps.reverse.find? fun app => app.name = v).map App.dependsOn).or (registry[v]?)).or
        (if v ∈ dogNames then some [] else none) := by
  have hdogs : ∀ edges : Registry, (dogNames.foldl (fun edges dog =>
      if dog ∈ edges then edges else edges.insert dog []) edges)[v]? =
        (edges[v]?).or (if v ∈ dogNames then some [] else none) := by
    induction dogNames with
    | nil => simp
    | cons dog dogNames ih =>
      intro edges
      rw [List.foldl_cons, ih]
      by_cases hv : v = dog
      · subst hv
        by_cases hin : v ∈ edges
        · rw [if_pos hin, Std.ExtTreeMap.getElem?_eq_some_getElem hin]
          rfl
        · rw [if_neg hin, Std.ExtTreeMap.getElem?_eq_none hin]
          simp
      · have hkept : (if dog ∈ edges then edges else edges.insert dog [])[v]? = edges[v]? := by
          split
          · rfl
          · rw [Table.get_insert, if_neg hv]
        simp [hkept, hv]
  have happs : ∀ edges : Registry, (apps.foldl (fun edges app =>
      edges.insert app.name app.dependsOn) edges)[v]? =
        ((apps.reverse.find? fun app => app.name = v).map App.dependsOn).or (edges[v]?) := by
    induction apps with
    | nil => simp
    | cons app apps ih =>
      intro edges
      rw [List.foldl_cons, ih, List.reverse_cons, List.find?_append, Table.get_insert]
      cases (apps.reverse.find? fun app => app.name = v) with
      | some found => rfl
      | none =>
        by_cases hv : v = app.name
        · simp [hv]
        · simp [hv, Ne.symm hv]
  rw [combined, happs, hdogs, Option.or_assoc]

theorem mem_combined {dogNames : List String} {apps : List App} (h : v ∈ batchOf apps) :
    v ∈ combined registry dogNames apps := by
  rw [Std.ExtTreeMap.mem_iff_isSome_getElem?, getElem?_combined]
  rw [batchOf, List.mem_toFinset, List.mem_map] at h
  obtain ⟨app, happ, hname⟩ := h
  have hsome : (apps.reverse.find? fun app => app.name = v).isSome := by
    rw [List.find?_isSome]
    exact ⟨app, List.mem_reverse.2 happ, by simp [hname]⟩
  obtain ⟨found, hfound⟩ := Option.isSome_iff_exists.1 hsome
  simp [hfound]

/-- The cycle `staged_plan` looks for. -/
theorem findIdx?_knots (edges : Registry) (batch : Finset String) :
    ((planForNames edges).knots.findIdx? fun knot => decide (∃ name ∈ knot, name ∈ batch)).bind
        (fun knot => (planForNames edges).cycles[knot]?) =
      ((planForNames edges).knots.find? fun knot => decide (∃ name ∈ knot, name ∈ batch)).map
        (representativeCycle (edgesOf (nodesOf edges)).2) := by
  have hcycles : (planForNames edges).cycles =
      (planForNames edges).knots.map (representativeCycle (edgesOf (nodesOf edges)).2) := rfl
  rw [hcycles]
  generalize (planForNames edges).knots = knots
  induction knots with
  | nil => rfl
  | cons knot knots ih =>
    rw [List.findIdx?_cons, List.find?_cons]
    cases decide (∃ name ∈ knot, name ∈ batch) with
    | true => rfl
    | false =>
      rw [← ih]
      simp only [Bool.false_eq_true, if_false, Option.bind_map]
      rfl

/-- What the two answers of `staged_plan` are. -/
theorem stagedPlan_cases (registry : Registry) (dogNames : List String) (apps : List App) :
    (∃ knot ∈ (planForNames (combined registry dogNames apps)).knots,
      (∃ app ∈ apps, app.name ∈ knot) ∧ stagedPlan registry dogNames apps =
        .error ("dependency cycle: " ++ renderCycle
          (representativeCycle (edgesOf (nodesOf (combined registry dogNames apps))).2 knot))) ∨
    (∀ app ∈ apps, ¬ (combined registry dogNames apps).OnCycle app.name) ∧
      stagedPlan registry dogNames apps = .ok
        { stages := cut (batchOf apps) (planForNames (combined registry dogNames apps)).stages
          unresolved := (planForNames (combined registry dogNames apps)).unresolved
          cycles := []
          knots := [] } := by
  rw [stagedPlan, findIdx?_knots]
  cases hfind : (planForNames (combined registry dogNames apps)).knots.find? fun knot =>
      decide (∃ name ∈ knot, name ∈ batchOf apps) with
  | some knot =>
    have hsome := List.find?_some hfind
    obtain ⟨name, hname, hbatch⟩ := of_decide_eq_true hsome
    rw [batchOf, List.mem_toFinset, List.mem_map] at hbatch
    obtain ⟨app, happ, rfl⟩ := hbatch
    exact .inl ⟨knot, List.mem_of_find?_eq_some hfind, ⟨app, happ, hname⟩, rfl⟩
  | none =>
    refine .inr ⟨fun app happ hcycle => ?_, rfl⟩
    obtain ⟨knot, hknot, hin⟩ := knotted_planForNames.2 hcycle
    refine List.find?_eq_none.1 hfind knot hknot (decide_eq_true ⟨app.name, hin, ?_⟩)
    rw [batchOf, List.mem_toFinset]
    exact List.mem_map_of_mem happ

/-- **A refusal names a cycle** of the combined graph, in a knot that one of
the batch's apps is in. -/
theorem refusal_names_cycle {dogNames : List String} {apps : List App} {message : String}
    (h : stagedPlan registry dogNames apps = .error message) :
    ∃ path, message = "dependency cycle: " ++ renderCycle path ∧
      ClosedPath (combined registry dogNames apps).Waits path ∧
      ∃ app ∈ apps, ∀ name ∈ path, Strong (combined registry dogNames apps).Waits app.name name := by
  have hwaits : ∀ u d, (edgesOf (nodesOf (combined registry dogNames apps))).2.Waits u d →
      (combined registry dogNames apps).Waits u d := by
    intro u d hd
    exact (depends_nodesOf.1 (waits_edgesOf.1 hd)).1
  rcases stagedPlan_cases registry dogNames apps with ⟨knot, hknot, ⟨app, happ, hin⟩, herror⟩ | ⟨-, hok⟩
  · rw [herror] at h
    have hcomp := (mem_knots.1 hknot).1
    obtain ⟨hpath, hinside, -⟩ := representativeCycle_closed hcomp (cycle_of_mem_knots hknot)
    refine ⟨_, (Except.error.inj h).symm, hpath.imp hwaits, app, happ, fun name hname => ?_⟩
    exact (hcomp.strong hin (hinside name hname)).imp hwaits
  · rw [hok] at h
    cases h

/-- Two apps that wait for each other, one of them for a third too. -/
def webAndApi : List App := [⟨"web", ["api"]⟩, ⟨"api", ["db", "web"]⟩]

theorem refusal_names_cycle_webAndApi : ∃ path,
    "dependency cycle: api -> web -> api" = "dependency cycle: " ++ renderCycle path ∧
      ClosedPath (combined ∅ [] webAndApi).Waits path ∧ ∃ app ∈ webAndApi, ∀ name ∈ path,
        Strong (combined ∅ [] webAndApi).Waits app.name name :=
  refusal_names_cycle (by decide +kernel)

theorem stagedPlan_refused (registry : Registry) (dogNames : List String) (apps : List App) :
    (∃ message, stagedPlan registry dogNames apps = .error message) ↔
      ∃ app ∈ apps, (combined registry dogNames apps).OnCycle app.name := by
  rcases stagedPlan_cases registry dogNames apps with ⟨knot, hknot, ⟨app, happ, hin⟩, herror⟩ | ⟨hno, hok⟩
  · exact iff_of_true ⟨_, herror⟩ ⟨app, happ, knotted_planForNames.1 ⟨knot, hknot, hin⟩⟩
  · refine iff_of_false ?_ fun ⟨app, happ, hcycle⟩ => hno app happ hcycle
    rintro ⟨message, herror⟩
    rw [hok] at herror
    cases herror

/-- Stages that hold these names and no others, each once, and each above what
is to follow it. -/
structure Keeps (names : String → Prop) (follows : String → String → Prop)
    (stages : List (List String)) : Prop where
  once : stages.flatten.Nodup
  names : ∀ v, v ∈ stages.flatten ↔ names v
  earlier : ∀ u d i j, follows u d → Placed stages i u → Placed stages j d → j < i

theorem keeps_cut (edges : Registry) (names : Finset String) :
    Keeps (fun v => v ∈ edges ∧ v ∈ names)
      (fun u d => ¬ edges.OnCycle u ∧ d ∈ edges ∧ edges.Kept u d)
      (cut names (planForNames edges).stages) where
  once := by
    rw [flatten_cut]
    exact nodup_planForNames.filter _
  names := fun v => by rw [mem_cut, mem_planForNames]
  earlier := fun u d i j ⟨hu, hd, hkept⟩ hi hj =>
    earlier_in_cut nodup_planForNames (fun _ _ => earlier_in_plan hu hd hkept) hi hj

/-- A batch that is not refused has its apps, and no others, in its stages. -/
theorem stagedPlan_keeps {dogNames : List String} {apps : List App} {p : BootPlan}
    (h : stagedPlan registry dogNames apps = .ok p) :
    Keeps (fun v => ∃ app ∈ apps, app.name = v) (combined registry dogNames apps).Kept p.stages := by
  rcases stagedPlan_cases registry dogNames apps with ⟨_, -, -, herror⟩ | ⟨hno, hok⟩
  · rw [herror] at h
    cases h
  rw [hok] at h
  have hstages : p.stages =
      cut (batchOf apps) (planForNames (combined registry dogNames apps)).stages :=
    (congrArg BootPlan.stages (Except.ok.inj h)).symm
  rw [hstages]
  have hcut := keeps_cut (combined registry dogNames apps) (batchOf apps)
  have hbatch : ∀ v, v ∈ batchOf apps ↔ ∃ app ∈ apps, app.name = v := by
    intro v
    rw [batchOf, List.mem_toFinset, List.mem_map]
  refine ⟨hcut.once, fun v => ?_, fun u d i j hkept hi hj => ?_⟩
  · rw [hcut.names, ← hbatch]
    exact ⟨fun hin => hin.2, fun hin => ⟨mem_combined hin, hin⟩⟩
  · -- no app of the batch is on a cycle
    obtain ⟨app, happ, rfl⟩ := (hbatch u).1 ((hcut.names u).1 hi.mem).2
    exact hcut.earlier _ d i j ⟨hno app happ, ((hcut.names d).1 hj.mem).1, hkept⟩ hi hj

/-! ## A walk -/

/-- What of the matched names the plan does not hold goes last. -/
theorem keeps_unplaced (edges : Registry) (names : Finset String) :
    let stages := cut names (planForNames edges).stages
    Keeps (fun v => v ∈ names) (fun u d => ¬ edges.OnCycle u ∧ d ∈ edges ∧ edges.Kept u d)
      (stages ++ stageOf ((listing names).filter fun name => name ∉ stages.flatten)) := by
  intro stages
  have hcut := keeps_cut edges names
  have hlast : ∀ v, v ∈ (listing names).filter (fun name => name ∉ stages.flatten) ↔
      v ∈ names ∧ v ∉ stages.flatten := by
    intro v
    rw [List.mem_filter, mem_listing, decide_eq_true_eq]
  have hrecorded : ∀ {v i}, v ∈ edges → Placed (stages ++
      stageOf ((listing names).filter fun name => name ∉ stages.flatten)) i v → Placed stages i v := by
    intro v i hv hi
    refine (placed_append.1 hi).resolve_right fun hlate => ?_
    have hin := hlate.2.mem
    rw [flatten_stageOf, hlast] at hin
    exact hin.2 ((hcut.names v).2 ⟨hv, hin.1⟩)
  refine ⟨?_, fun v => ?_, fun u d i j h hi hj => ?_⟩
  · rw [List.flatten_append, flatten_stageOf]
    refine List.nodup_append.2 ⟨hcut.once, (nodup_listing names).filter _, ?_⟩
    rintro v hv _ hw rfl
    exact ((hlast v).1 hw).2 hv
  · rw [List.flatten_append, List.mem_append, flatten_stageOf, hlast]
    by_cases hin : v ∈ stages.flatten
    · exact iff_of_true (.inl hin) ((hcut.names v).1 hin).2
    · simp [hin]
  · obtain ⟨w, hnext, -⟩ := TransGen.head'_iff.1 h.2.2.1
    exact hcut.earlier u d i j h (hrecorded (mem_of_waits hnext) hi) (hrecorded h.2.1 hj)

theorem orderedWalk_keeps {selector : ProcessSelector} {flock : List Row} {walk : OrderedWalk}
    (h : orderedWalk registry selector flock = some walk) :
    Keeps (fun v => v ∈ matchedBy selector flock)
      (fun u d => ¬ registry.OnCycle u ∧ d ∈ registry ∧ registry.Kept u d) walk.stages := by
  simp only [orderedWalk] at h
  split at h
  · cases h
  · obtain rfl := Option.some.inj h
    have hkeeps := keeps_unplaced registry (matchedBy selector flock)
    simp only [stageOf] at hkeeps
    dsimp only
    split
    · next hempty =>
      rw [if_pos hempty, List.append_nil] at hkeeps
      exact hkeeps
    · next hsome =>
      rw [if_neg hsome] at hkeeps
      exact hkeeps

theorem orderedWalk_dependedOn {selector : ProcessSelector} {flock : List Row} {walk : OrderedWalk}
    (h : orderedWalk registry selector flock = some walk) (d : String) :
    d ∈ walk.dependedOn ↔ d ∈ matchedBy selector flock ∧
      ∃ u ∈ matchedBy selector flock, u ≠ d ∧ TransGen registry.Waits u d := by
  simp only [orderedWalk] at h
  split at h
  · cases h
  · obtain rfl := Option.some.inj h
    simp only [Finset.mem_biUnion, mem_matchedDependencies]
    constructor
    · rintro ⟨u, hu, hd, hne, hwait⟩
      exact ⟨hd, u, hu, hne.symm, hwait⟩
    · rintro ⟨hd, u, hu, hne, hwait⟩
      exact ⟨u, hu, hd, hne.symm, hwait⟩

/-- **A request in order**, a batch and a walk. -/
theorem request_ordered (registry : Registry) :
    (∀ dogNames apps,
      ((∃ message, stagedPlan registry dogNames apps = .error message) ↔
        ∃ app ∈ apps, (combined registry dogNames apps).OnCycle app.name) ∧
      ∀ p, stagedPlan registry dogNames apps = .ok p →
        Keeps (fun v => ∃ app ∈ apps, app.name = v) (combined registry dogNames apps).Kept
          p.stages) ∧
    ∀ selector flock,
      (orderedWalk registry selector flock = none ↔ (matchedBy selector flock).card < 2) ∧
      ∀ walk, orderedWalk registry selector flock = some walk →
        Keeps (fun v => v ∈ matchedBy selector flock)
          (fun u d => ¬ registry.OnCycle u ∧ d ∈ registry ∧ registry.Kept u d) walk.stages ∧
        ∀ d, d ∈ walk.dependedOn ↔ d ∈ matchedBy selector flock ∧
          ∃ u ∈ matchedBy selector flock, u ≠ d ∧ TransGen registry.Waits u d := by
  refine ⟨fun dogNames apps => ⟨stagedPlan_refused registry dogNames apps,
    fun p h => stagedPlan_keeps h⟩, fun selector flock => ⟨?_, fun walk h =>
      ⟨orderedWalk_keeps h, orderedWalk_dependedOn h⟩⟩⟩
  simp only [orderedWalk]
  split
  · next hfew => exact iff_of_true rfl hfew
  · next hmany => exact iff_of_false (fun h => by cases h) hmany

/-! ## Where the order is lost -/

/-- Two pairs that wait for each other, one of them for `mid` as well. -/
def twoKnots : Registry :=
  .ofList [("a", ["b", "mid"]), ("b", ["a"]), ("c", ["d"]), ("d", ["c"])]

/-- Through a cycle, `top` waits for `mid`, which hangs off another: both
stand in one stage, as a batch and as a walk. And `web` goes before `db`,
which it waits for and nobody has recorded. -/
theorem order_through_cycle :
    let apps : List App := [⟨"mid", ["c"]⟩, ⟨"top", ["a"]⟩]
    let row : String → ℕ → Row := fun name id => ⟨id, name, none, some 0, none, none⟩
    TransGen (combined twoKnots [] apps).Waits "top" "mid" ∧
    (stagedPlan twoKnots [] apps).map BootPlan.stages = .ok [["mid", "top"]] ∧
    orderedWalk (combined twoKnots [] apps) .all [row "mid" 0, row "top" 1] =
      some ⟨[["mid", "top"]], {"mid"}⟩ ∧
    orderedWalk (.ofList [("web", ["db"])]) .all [row "db" 0, row "web" 1] =
      some ⟨[["web"], ["db"]], {"db"}⟩ := by
  refine ⟨?_, by decide +kernel, by decide +kernel, by decide +kernel⟩
  exact .head (b := "a") (by decide +kernel) (.single (by decide +kernel))

end Walk

end Shep
