import Shep.Graph.Helpers.Tarjan

/-!
# Graph — the knots and the cycle each is shown by

`Walks` is what holds of `close_on` part way through the edges of a node:
a walk that has closed is a simple path with an edge back to its start, and
one that has not has left nothing it met with an edge to go on by. Inside a
component that cannot be, so the walk `representative_cycle` makes closes.
-/

namespace Shep

namespace Graph

open Relation

variable {edges : Edges} {members : Finset String} {start node : String} {path : List String}
  {seen : Finset String} {followed : Set String} {walk : Bool × List String × Finset String}

/-! ## The walk -/

/-- A walk that set out with `path` and `seen`, the edges to `followed`
tried. -/
structure Walks (edges : Edges) (members : Finset String) (start : String) (path : List String)
    (seen : Finset String) (followed : Set String) (walk : Bool × List String × Finset String) :
    Prop where
  grows : seen ⊆ walk.2.2
  inside : walk.2.2 ⊆ members
  found : walk.1 = true → path <+: walk.2.1 ∧ walk.2.1.Nodup ∧ walk.2.1.IsChain edges.Waits ∧
    (∀ v ∈ walk.2.1, v ∈ members) ∧ ∀ last ∈ walk.2.1.getLast?, edges.Waits last start
  missed : walk.1 = false → walk.2.1 = path ∧ (∀ d ∈ followed, d ∈ walk.2.2 ∧ d ≠ start) ∧
    ∀ w ∈ walk.2.2, w ∉ seen → ∀ d, edges.Waits w d → d ∈ members → d ∈ walk.2.2 ∧ d ≠ start

/-- What a walk sets out with: a simple path that ends at `node`, all of it
seen. -/
structure SetsOut (edges : Edges) (members : Finset String) (node : String) (path : List String)
    (seen : Finset String) : Prop where
  last : path.getLast? = some node
  nodup : path.Nodup
  chain : path.IsChain edges.Waits
  met : ∀ v ∈ path, v ∈ seen
  inside : seen ⊆ members

theorem SetsOut.walks (h : SetsOut edges members node path seen) :
    Walks edges members start path seen ∅ (false, path, seen) where
  grows := Finset.Subset.refl seen
  inside := h.inside
  found hfalse := absurd hfalse Bool.false_ne_true
  missed _ := ⟨rfl, by simp, fun w hw hnot => absurd hw hnot⟩

/-- An edge to a node not met before goes on from it. -/
theorem SetsOut.next {dep : String} (h : SetsOut edges members node path seen) {now : Finset String}
    (hnow : seen ⊆ now) (hin : now ⊆ members) (he : edges.Waits node dep) (hmem : dep ∈ members)
    (hnot : dep ∉ now) : SetsOut edges members dep (path ++ [dep]) (insert dep now) where
  last := by simp
  nodup := by
    refine List.nodup_append.2 ⟨h.nodup, List.nodup_singleton dep, ?_⟩
    rintro v hv w hw rfl
    rw [List.mem_singleton.1 hw] at hv
    exact hnot (hnow (h.met dep hv))
  chain := by
    refine List.isChain_append.2 ⟨h.chain, List.isChain_singleton dep, ?_⟩
    intro v hv w hw
    rw [h.last, Option.mem_some_iff] at hv
    rw [List.head?_singleton, Option.mem_some_iff] at hw
    rw [← hv, ← hw]
    exact he
  met v hv := by
    rcases List.mem_append.1 hv with hv | hv
    · exact Finset.mem_insert_of_mem (hnow (h.met v hv))
    · rw [List.mem_singleton.1 hv]
      exact Finset.mem_insert_self _ _
  inside := Finset.insert_subset hmem hin

namespace Walks

theorem toStart (h : Walks edges members start path seen followed walk)
    (hout : SetsOut edges members node path seen) (hmiss : walk.1 = false)
    (he : edges.Waits node start) {followed' : Set String} :
    Walks edges members start path seen followed' (true, walk.2) := by
  obtain ⟨hpath, -, -⟩ := h.missed hmiss
  refine ⟨h.grows, h.inside, fun _ => ?_, fun hf => absurd hf.symm Bool.false_ne_true⟩
  rw [hpath]
  refine ⟨List.prefix_rfl, hout.nodup, hout.chain, fun v hv => hout.inside (hout.met v hv), ?_⟩
  intro last hlast
  rw [hout.last, Option.mem_some_iff] at hlast
  rw [← hlast]
  exact he

theorem toSeen {dep : String} (h : Walks edges members start path seen followed walk)
    (hne : dep ≠ start) (hin : dep ∈ walk.2.2) :
    Walks edges members start path seen (insert dep followed) walk := by
  refine ⟨h.grows, h.inside, h.found, fun hmiss => ?_⟩
  obtain ⟨hpath, hfollowed, hmet⟩ := h.missed hmiss
  refine ⟨hpath, ?_, hmet⟩
  rintro d (rfl | hd)
  · exact ⟨hin, hne⟩
  · exact hfollowed d hd

theorem toClosed (h : Walks edges members start path seen followed walk) (hfound : walk.1 = true)
    {followed' : Set String} : Walks edges members start path seen followed' walk := by
  refine ⟨h.grows, h.inside, h.found, fun hmiss => ?_⟩
  rw [hfound] at hmiss
  exact absurd hmiss.symm Bool.false_ne_true

/-- An edge to a node not met before, once the walk on from it is back. -/
theorem toNew {dep : String} {deeper : Bool × List String × Finset String}
    (h : Walks edges members start path seen followed walk) (hmiss : walk.1 = false)
    (hne : dep ≠ start)
    (hd : Walks edges members start (path ++ [dep]) (insert dep walk.2.2)
      {d | edges.Waits dep d ∧ d ∈ members} deeper) :
    Walks edges members start path seen (insert dep followed)
      (if deeper.1 then deeper else (false, deeper.2.1.dropLast, deeper.2.2)) := by
  obtain ⟨-, hfollowed, hmet⟩ := h.missed hmiss
  have hsub : walk.2.2 ⊆ deeper.2.2 := (Finset.subset_insert dep _).trans hd.grows
  by_cases hfound : deeper.1 = true
  · rw [if_pos hfound]
    obtain ⟨hpre, hrest⟩ := hd.found hfound
    refine ⟨h.grows.trans hsub, hd.inside, fun _ => ⟨?_, hrest⟩, fun hm => ?_⟩
    · exact (List.prefix_append path [dep]).trans hpre
    · rw [hfound] at hm
      exact absurd hm.symm Bool.false_ne_true
  · rw [if_neg hfound]
    obtain ⟨hpath, hdfollowed, hdmet⟩ := hd.missed (Bool.eq_false_iff.2 hfound)
    refine ⟨h.grows.trans hsub, hd.inside, fun hf => absurd hf Bool.false_ne_true,
      fun _ => ⟨?_, ?_, ?_⟩⟩
    · show deeper.2.1.dropLast = path
      rw [hpath, List.dropLast_concat]
    · rintro d (rfl | hd')
      · exact ⟨hd.grows (Finset.mem_insert_self _ _), hne⟩
      · exact ⟨hsub (hfollowed d hd').1, (hfollowed d hd').2⟩
    · intro w hw hnot d he hmem
      by_cases hnew : w ∈ insert dep walk.2.2
      · rcases Finset.mem_insert.1 hnew with rfl | hold
        · exact hdfollowed d ⟨he, hmem⟩
        · obtain ⟨hin, hds⟩ := hmet w hold hnot d he hmem
          exact ⟨hsub hin, hds⟩
      · exact hdmet w hw hnew d he hmem

end Walks

/-- **What `close_on` comes back with.** -/
theorem closeOn_walks (fuel : ℕ) (hout : SetsOut edges members node path seen)
    (hfuel : (members \ seen).card < fuel) :
    Walks edges members start path seen {d | edges.Waits node d ∧ d ∈ members}
      (closeOn edges members start fuel node path seen) := by
  induction fuel generalizing node path seen with
  | zero => omega
  | succ fuel ih =>
    -- the loop over the edges, with what has been followed so far
    suffices h : ∀ (ds : List String) (followed : Set String)
        (walk : Bool × List String × Finset String),
        (∀ d ∈ ds, edges.Waits node d ∧ d ∈ members) →
        Walks edges members start path seen followed walk →
        Walks edges members start path seen (followed ∪ {d | d ∈ ds}) (ds.foldl (fun walk dep =>
          if walk.1 then walk
          else if dep = start then (true, walk.2)
          else if dep ∈ walk.2.2 then walk
          else
            let deeper := closeOn edges members start fuel dep (walk.2.1 ++ [dep])
              (insert dep walk.2.2)
            if deeper.1 then deeper else (false, deeper.2.1.dropLast, deeper.2.2)) walk) by
      have hall := h ((listing (edges.deps node)).filter fun dep => dep ∈ members) ∅
        (false, path, seen) (fun d hd => by simpa [Edges.Waits] using hd) hout.walks
      have hset : {d | edges.Waits node d ∧ d ∈ members} =
          ∅ ∪ {d | d ∈ (listing (edges.deps node)).filter fun dep => dep ∈ members} := by
        ext d
        simp [Edges.Waits]
      rw [hset]
      exact hall
    intro ds
    induction ds with
    | nil => exact fun followed walk _ hw => by simpa using hw
    | cons dep ds ihds =>
      intro followed walk hds hw
      obtain ⟨he, hmem⟩ := hds dep List.mem_cons_self
      have hset : followed ∪ {d | d ∈ dep :: ds} = insert dep followed ∪ {d | d ∈ ds} := by
        ext d
        simp only [Set.mem_union, Set.mem_ofPred_eq, List.mem_cons, Set.mem_insert_iff]
        tauto
      rw [hset, List.foldl_cons]
      refine ihds _ _ (fun d hd => hds d (List.mem_cons_of_mem _ hd)) ?_
      by_cases hfound : walk.1 = true
      · rw [if_pos hfound]
        exact hw.toClosed hfound
      · have hmiss := Bool.eq_false_iff.2 hfound
        rw [if_neg hfound]
        by_cases hstart : dep = start
        · rw [if_pos hstart]
          exact hw.toStart hout hmiss (hstart ▸ he)
        · rw [if_neg hstart]
          by_cases hin : dep ∈ walk.2.2
          · rw [if_pos hin]
            exact hw.toSeen hstart hin
          · rw [if_neg hin]
            refine hw.toNew hmiss hstart ?_
            rw [(hw.missed hmiss).1]
            refine ih (hout.next hw.grows hw.inside he hmem hin) ?_
            have hlt : (members \ insert dep walk.2.2).card < (members \ seen).card := by
              refine Finset.card_lt_card (Finset.ssubset_iff_of_subset ?_ |>.2 ⟨dep, ?_, ?_⟩)
              · exact Finset.sdiff_subset_sdiff (Finset.Subset.refl _)
                  (hw.grows.trans (Finset.subset_insert _ _))
              · exact Finset.mem_sdiff.2 ⟨hmem, fun hs => hin (hw.grows hs)⟩
              · simp
            omega

/-! ## A component with a cycle -/

/-- Inside a component with a cycle the walk closes. -/
theorem closingWalk_found (hcomp : IsComponent edges.Waits (members : Set String))
    (hstart : start ∈ members) (hcycle : TransGen edges.Waits start start) :
    (closingWalk edges members start).1 = true ∧
      Walks edges members start [start] {start} {d | edges.Waits start d ∧ d ∈ members}
        (closingWalk edges members start) := by
  have hout : SetsOut edges members start [start] {start} :=
    ⟨rfl, List.nodup_singleton _, List.isChain_singleton _, by simp,
      Finset.singleton_subset_iff.2 hstart⟩
  have hfuel : (members \ {start}).card < members.card := by
    refine Finset.card_lt_card (Finset.ssubset_iff_of_subset Finset.sdiff_subset |>.2 ⟨start, ?_⟩)
    exact ⟨hstart, by simp⟩
  have hwalk : Walks edges members start [start] {start} {d | edges.Waits start d ∧ d ∈ members}
      (closingWalk edges members start) := closeOn_walks members.card hout hfuel
  refine ⟨?_, hwalk⟩
  by_contra hnot
  obtain ⟨-, hfollowed, hmet⟩ := hwalk.missed (Bool.eq_false_iff.2 hnot)
  -- what the walk met is left by no edge of the component, and none of it goes back to the start
  have hshut : ∀ w ∈ (closingWalk edges members start).2.2, ∀ d, edges.Waits w d → d ∈ members →
      d ∈ (closingWalk edges members start).2.2 ∧ d ≠ start := by
    intro w hw d he hd
    by_cases hws : w = start
    · subst hws
      exact hfollowed d ⟨he, hd⟩
    · exact hmet w hw (by simpa using hws) d he hd
  have hkeep : ∀ w, ReflTransGen edges.Waits start w → ReflTransGen edges.Waits w start →
      w ∈ (closingWalk edges members start).2.2 := by
    intro w hto hback
    induction hto with
    | refl => exact hwalk.grows (Finset.mem_singleton_self start)
    | tail hto he ih =>
      refine (hshut _ (ih (.head he hback)) _ he ?_).1
      exact hcomp.mem_of_between hstart hstart (hto.tail he) hback
  obtain ⟨w, hto, he⟩ := TransGen.tail'_iff.1 hcycle
  exact (hshut w (hkeep w hto (.single he)) start he hstart).2 rfl

/-- **The cycle shown is one.** -/
theorem representativeCycle_closed (hcomp : IsComponent edges.Waits (members : Set String))
    (hcycle : ∃ v ∈ members, TransGen edges.Waits v v) :
    ClosedPath edges.Waits (representativeCycle edges members) ∧
      (∀ v ∈ representativeCycle edges members, v ∈ members) ∧
      ∃ start ∈ (listing members).head?, (closingWalk edges members start).1 = true := by
  obtain ⟨v, hv, hcycle⟩ := hcycle
  cases hhead : (listing members).head? with
  | none =>
    rw [List.head?_eq_none_iff, listing_eq_nil] at hhead
    simp [hhead] at hv
  | some start =>
    have hstart := mem_of_head?_listing hhead
    have hcycle' := (hcomp.strong hv hstart).cycle hcycle
    obtain ⟨hfound, hwalk⟩ := closingWalk_found hcomp hstart hcycle'
    obtain ⟨hpre, hnodup, hchain, hin, hlast⟩ := hwalk.found hfound
    have hrep : representativeCycle edges members = (closingWalk edges members start).2.1 := by
      simp only [representativeCycle, hhead, hfound, if_true]
    obtain ⟨rest, hrest⟩ := hpre
    rw [hrep]
    refine ⟨⟨?_, hnodup, hchain, fun first hfirst last hl => ?_⟩, hin, start, rfl, hfound⟩
    · rw [← hrest]
      simp
    · rw [← hrest] at hfirst
      simp only [List.cons_append, List.head?_cons, Option.mem_some_iff] at hfirst
      rw [← hfirst]
      exact hlast last hl

/-- A component holds a cycle when it has two nodes, or one that waits for
itself. -/
theorem isKnot_iff (hcomp : IsComponent edges.Waits (members : Set String)) :
    isKnot edges members = true ↔ 1 < members.card ∨ ∃ v, members = {v} ∧ edges.Waits v v := by
  have hpos : 0 < members.card := by
    obtain ⟨v, hv⟩ := hcomp
    exact Finset.card_pos.2 ⟨v, (hv v).2 (Strong.refl v)⟩
  rw [isKnot, Bool.or_eq_true, decide_eq_true_iff]
  by_cases hlt : 1 < members.card
  · simp [hlt]
  · obtain ⟨v, rfl⟩ := Finset.card_eq_one.1 (by omega : members.card = 1)
    have hlist : listing ({v} : Finset String) = [v] := by simp [listing_eq_sort]
    simp [hlist, Edges.Waits, Finset.singleton_inj]

theorem card_or_self_iff (hcomp : IsComponent edges.Waits (members : Set String)) :
    (1 < members.card ∨ ∃ v, members = {v} ∧ edges.Waits v v) ↔
      ∃ v ∈ members, TransGen edges.Waits v v := by
  constructor
  · rintro (hlt | ⟨v, rfl, hself⟩)
    · obtain ⟨u, hu, v, hv, hne⟩ := Finset.one_lt_card.1 hlt
      obtain ⟨hto, hback⟩ := hcomp.strong hu hv
      rcases hto.cases_head with rfl | ⟨w, he, hwv⟩
      · exact absurd rfl hne
      · exact ⟨u, hu, TransGen.head' he (hwv.trans hback)⟩
    · exact ⟨v, Finset.mem_singleton_self v, .single hself⟩
  · rintro ⟨v, hv, hcycle⟩
    obtain ⟨w, he, hback⟩ := TransGen.head'_iff.1 hcycle
    have hw : w ∈ members := hcomp.mem_of_between hv hv (.single he) hback
    by_cases hvw : v = w
    · by_cases hlt : 1 < members.card
      · exact Or.inl hlt
      · refine Or.inr ⟨v, ?_, hvw ▸ he⟩
        have hone : members.card = 1 := by
          have hpos := Finset.card_pos.2 ⟨v, hv⟩
          omega
        obtain ⟨u, rfl⟩ := Finset.card_eq_one.1 hone
        rw [Finset.mem_singleton.1 hv]
    · exact Or.inl (Finset.one_lt_card.2 ⟨v, hv, w, hw, hvw⟩)

/-! ## The knots -/

theorem mem_knots {k : Finset String} : k ∈ knots edges ↔
    IsComponent edges.Waits (k : Set String) ∧ (1 < k.card ∨ ∃ v, k = {v} ∧ edges.Waits v v) := by
  obtain ⟨hcomp, -, hall⟩ := Tarjan.connectAll_components edges
  rw [knots, List.mem_insertionSort, List.mem_filter]
  constructor
  · rintro ⟨hk, hknot⟩
    exact ⟨(hcomp k hk).2, (isKnot_iff (hcomp k hk).2).1 hknot⟩
  · rintro ⟨hk, hknot⟩
    refine ⟨?_, (isKnot_iff hk).2 hknot⟩
    -- a node on a cycle is in the table, so Tarjan has closed its component
    obtain ⟨v, hv, hcycle⟩ := (card_or_self_iff hk).1 hknot
    obtain ⟨w, he, -⟩ := TransGen.head'_iff.1 hcycle
    obtain ⟨c, hc, hvc⟩ := hall v (Edges.mem_keys_of_waits he)
    have heq : (c : Set String) = k := (hcomp c hc).2.eq_of_mem hk hvc hv
    rw [← Finset.coe_injective heq]
    exact hc

theorem cycle_of_mem_knots {k : Finset String} (h : k ∈ knots edges) :
    ∃ v ∈ k, TransGen edges.Waits v v :=
  (card_or_self_iff (mem_knots.1 h).1).1 (mem_knots.1 h).2

theorem exists_mem_knots {v : String} :
    (∃ k ∈ knots edges, v ∈ k) ↔ TransGen edges.Waits v v := by
  constructor
  · rintro ⟨k, hk, hv⟩
    obtain ⟨u, hu, hcycle⟩ := cycle_of_mem_knots hk
    exact ((mem_knots.1 hk).1.strong hu hv).cycle hcycle
  · intro hcycle
    obtain ⟨hcomp, -, hall⟩ := Tarjan.connectAll_components edges
    obtain ⟨w, he, -⟩ := TransGen.head'_iff.1 hcycle
    obtain ⟨c, hc, hvc⟩ := hall v (Edges.mem_keys_of_waits he)
    exact ⟨c, mem_knots.2 ⟨(hcomp c hc).2, (card_or_self_iff (hcomp c hc).2).2 ⟨v, hvc, hcycle⟩⟩, hvc⟩

theorem pairwise_disjoint_knots (edges : Edges) : (knots edges).Pairwise Disjoint := by
  obtain ⟨-, hdisj, -⟩ := Tarjan.connectAll_components edges
  have hfilter := hdisj.filter (isKnot edges)
  exact (hfilter.perm (List.perm_insertionSort _ _).symm fun h => h.symm)

theorem pairwise_knots (edges : Edges) :
    (knots edges).Pairwise fun a b => listing a < listing b := by
  have hle : (knots edges).Pairwise fun a b => listing a ≤ listing b := by
    refine List.pairwise_insertionSort _ _
  refine (hle.and (pairwise_disjoint_knots edges)).imp_of_mem fun {a b} ha hb h => ?_
  refine lt_of_le_of_ne h.1 fun heq => ?_
  obtain ⟨v, hv, -⟩ := cycle_of_mem_knots ha
  have hab := listing_injective heq
  exact Finset.disjoint_left.1 h.2 hv (hab ▸ hv)

end Graph

end Shep

/-!
## The knots

**The knots are the cycles.** Whatever the table, the sets `knots` returns
are its strongly connected components with a cycle in them, in order and
apart, and the path a knot is shown by is a simple cycle inside it: the
fallback for a walk that does not close is never reached.
-/

namespace Shep

namespace Graph

open Relation

theorem knots_exact (edges : Edges) :
    (∀ k, k ∈ knots edges ↔ IsComponent edges.Waits (k : Set String) ∧
      (1 < k.card ∨ ∃ v, k = {v} ∧ edges.Waits v v)) ∧
    (∀ v, (∃ k ∈ knots edges, v ∈ k) ↔ TransGen edges.Waits v v) ∧
    (∀ k ∈ knots edges, (listing k).Pairwise (· < ·)) ∧
    (knots edges).Pairwise Disjoint ∧
    (knots edges).Pairwise (fun a b => listing a < listing b) ∧
    ∀ k ∈ knots edges, ClosedPath edges.Waits (representativeCycle edges k) ∧
      (∀ v ∈ representativeCycle edges k, v ∈ k) ∧
      ∃ start ∈ (listing k).head?, (closingWalk edges k start).1 = true := by
  refine ⟨fun k => mem_knots, fun v => exists_mem_knots, fun k _ => pairwise_listing k,
    pairwise_disjoint_knots edges, pairwise_knots edges, fun k hk => ?_⟩
  exact representativeCycle_closed (mem_knots.1 hk).1 (cycle_of_mem_knots hk)

/-- A knot of three reached by two edges: the cycle it is shown by leaves
one of them out. -/
example : (plan [⟨"a", ["b"], .sheep⟩, ⟨"b", ["a", "c"], .sheep⟩, ⟨"c", ["b"], .sheep⟩]).cycles =
    [["a", "b"]] := by
  decide +kernel

end Graph

end Shep
