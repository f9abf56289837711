import Shep.Graph.Plan

/-!
# Graph — no stage later than it must be

A round of `kahn` takes every node that is ready, so a node of the next round
waits for one of this round (`kahnFrom_chain`). **`plan_prompt`**: what stands
right above a node of the plan is a node it waits for, or the boot-first
dogs alone; the knots, which share a stage, and the dogs left for last are
the exceptions.
-/

namespace Shep

namespace Graph

open Relation

variable {edges : Edges} {nodes : List BootNode} {u v d : String} {placed left : Finset String}

/-- Each name of `b` waits for one of `a`. -/
def Prompts (edges : Edges) (a b : List String) : Prop := ∀ v ∈ b, ∃ d ∈ a, edges.Waits v d

/-! ## A pass -/

theorem head?_kahnFrom {fuel : ℕ} {stage : List String}
    (h : (kahnFrom edges fuel placed left).1.head? = some stage) :
    stage = listing (readyAmong edges placed left) := by
  cases fuel with
  | zero => cases h
  | succ fuel =>
    unfold kahnFrom at h
    split at h
    · cases h
    · dsimp only at h
      split at h
      · cases h
      · exact (Option.some.inj h).symm

/-- What a round leaves behind waits for what the round took. -/
theorem prompts_readyAmong : Prompts edges (listing (readyAmong edges placed left))
    (listing (readyAmong edges (placed ∪ readyAmong edges placed left)
      (left \ readyAmong edges placed left))) := by
  intro v hv
  obtain ⟨hleft, hmet⟩ := mem_readyAmong.1 (mem_listing.1 hv)
  obtain ⟨hin, hnot⟩ := Finset.mem_sdiff.1 hleft
  rw [mem_readyAmong, not_and, not_forall] at hnot
  obtain ⟨d, hd⟩ := hnot hin
  rw [Classical.not_imp, not_or, not_not] at hd
  obtain ⟨hwaits, hplaced, hdleft⟩ := hd
  refine ⟨d, mem_listing.2 ?_, hwaits⟩
  rcases hmet d hwaits with h | h
  · exact (Finset.mem_union.1 h).resolve_left hplaced
  · by_contra hd
    exact h (Finset.mem_sdiff.2 ⟨hdleft, hd⟩)

theorem kahnFrom_chain (edges : Edges) (fuel : ℕ) (placed left : Finset String) :
    (kahnFrom edges fuel placed left).1.IsChain (Prompts edges) := by
  induction fuel generalizing placed left with
  | zero => exact .nil
  | succ fuel ih =>
    unfold kahnFrom
    split
    · exact .nil
    · dsimp only
      split
      · exact .nil
      · refine List.isChain_cons.2 ⟨fun stage hstage => ?_, ih _ _⟩
        rw [head?_kahnFrom hstage]
        exact prompts_readyAmong

/-! ## The plan -/

/-- What may stand right above a stage. -/
def Above (nodes : List BootNode) (a b : List String) : Prop :=
  ∀ v ∈ b, v ∉ (split nodes).inACycle → ¬ Undepended nodes v →
    (∃ d ∈ a, Depends nodes v d) ∨ ∀ d ∈ a, BootsFirst nodes d

theorem above_kahn (ordered already : Finset String) :
    (kahn ordered (split nodes).edges already).1.IsChain (Above nodes) :=
  (kahnFrom_chain _ _ _ _).imp fun _ _ h v hv _ _ => by
    obtain ⟨d, hd, hwaits⟩ := h v hv
    exact Or.inl ⟨d, hd, waits_eq_depends nodes ▸ hwaits⟩

theorem chain_stageOf (R : List String → List String → Prop) (names : List String) :
    (stageOf names).IsChain R := by
  unfold stageOf
  split
  · exact .nil
  · exact .singleton _

/-- What hangs off a knot and is first to be placed waits for a member of
one. -/
theorem above_after {stage : List String}
    (h : (kahn (split nodes).afterCycle (split nodes).edges ∅).1.head? = some stage)
    (hv : v ∈ stage) : ∃ d ∈ (split nodes).inACycle, Depends nodes v d := by
  rw [head?_kahnFrom h, mem_listing, mem_readyAmong] at hv
  obtain ⟨hin, hmet⟩ := hv
  obtain ⟨-, w, hw, hreach⟩ := mem_afterCycle.1 hin
  obtain ⟨d, hd, hrest⟩ := TransGen.head'_iff.1 hreach
  have hnot : d ∉ (split nodes).afterCycle :=
    (hmet d (waits_eq_depends nodes ▸ hd)).resolve_left (Finset.notMem_empty d)
  refine ⟨d, ?_, hd⟩
  rcases Relation.reflTransGen_iff_eq_or_transGen.1 hrest with rfl | hrest
  · exact hw
  · by_contra hout
    exact hnot (mem_afterCycle.2 ⟨hout, w, hw, hrest⟩)

section Parts

variable (hnames : (nodes.map BootNode.name).Nodup)
  (hdogs : ∀ node ∈ nodes, node.kind ≠ .sheep → node.dependsOn = [])

include hnames hdogs

/-- The five parts of the plan, and what stands between each and the next. -/
theorem above_stages : (split nodes).stages.IsChain (Above nodes) := by
  unfold Split.stages
  simp only [List.isChain_append]
  refine ⟨⟨⟨⟨chain_stageOf _ _, above_kahn _ _, ?_⟩, chain_stageOf _ _, ?_⟩, above_kahn _ _, ?_⟩,
    chain_stageOf _ _, ?_⟩
  · intro a ha b hb v hv hno hlast
    obtain ⟨rfl, -⟩ := mem_stageOf (List.mem_of_getLast? ha)
    exact Or.inr fun d hd => (mem_first hnames hdogs).1 hd
  · intro a ha b hb v hv hno hlast
    obtain ⟨rfl, -⟩ := mem_stageOf (List.mem_of_head? hb)
    exact absurd (mem_listing.1 hv) hno
  · -- the knots stand right above what hangs off them
    intro a ha b hb v hv hno hlast
    obtain ⟨d, hd, hdep⟩ := above_after hb hv
    have hne : listing (split nodes).inACycle ≠ [] := by
      rw [Ne, listing_eq_nil]
      exact Finset.ne_empty_of_mem hd
    have hcons : stageOf (listing (split nodes).inACycle) = [listing (split nodes).inACycle] := by
      simp [stageOf, hne]
    rw [hcons, List.getLast?_concat] at ha
    obtain rfl := Option.some.inj ha
    exact Or.inl ⟨d, mem_listing.2 hd, hdep⟩
  · intro a ha b hb v hv hno hlast
    obtain ⟨rfl, -⟩ := mem_stageOf (List.mem_of_head? hb)
    exact absurd ((mem_last hnames hdogs).1 hv) hlast

/-- **No node waits longer than it must.** -/
theorem plan_prompt {i : ℕ} (hknot : ¬ (plan nodes).Knotted u) (hlast : ¬ Undepended nodes u)
    (hi : Placed (plan nodes).stages (i + 1) u) :
    (∃ d, Placed (plan nodes).stages i d ∧ Depends nodes u d) ∨
      ∀ d, Placed (plan nodes).stages i d → BootsFirst nodes d := by
  obtain ⟨b, hb, hu⟩ := hi
  obtain ⟨hlt, rfl⟩ := List.getElem?_eq_some_iff.1 hb
  have hi : i < (plan nodes).stages.length := (Nat.lt_succ_self i).trans hlt
  have ha : (plan nodes).stages[i]? = some (plan nodes).stages[i] := List.getElem?_eq_getElem hi
  have habove := List.isChain_iff_getElem.1 (above_stages hnames hdogs) i hlt
  rw [knotted_plan] at hknot
  rcases habove u hu hknot hlast with ⟨d, hd, hdep⟩ | hfirst
  · exact Or.inl ⟨d, ⟨_, ha, hd⟩, hdep⟩
  · refine Or.inr fun d ⟨stage, hstage, hd⟩ => hfirst d ?_
    rwa [← Option.some.inj (ha.symm.trans hstage)] at hd

end Parts

/-- A chain of three, with a dog that boots first. -/
def dogAndChain : List BootNode :=
  [⟨"web", ["api"], .sheep⟩, ⟨"api", ["db"], .sheep⟩, ⟨"db", [], .sheep⟩, ⟨"ops", [], .dog true⟩]

theorem plan_prompt_dogAndChain :
    (∃ d, Placed (plan dogAndChain).stages 2 d ∧ Depends dogAndChain "web" d) ∨
      ∀ d, Placed (plan dogAndChain).stages 2 d → BootsFirst dogAndChain d := by
  have hstages : (plan dogAndChain).stages = [["ops"], ["db"], ["api"], ["web"]] := by
    decide +kernel
  have hknots : (plan dogAndChain).knots = [] := by decide +kernel
  refine plan_prompt (by decide) (by decide) (by simp [BootPlan.Knotted, hknots]) ?_
    ⟨["web"], by rw [hstages]; rfl, by decide⟩
  rintro ⟨⟨node, hnode, hname, hkind⟩, -⟩
  revert node
  decide

end Graph

end Shep
