import Mathlib.Data.List.Chain
import Mathlib.Data.Set.Insert
import Mathlib.Logic.Relation

/-!
# Directed graphs

Reachability, the nodes mutually reachable from one, and how a set is
shown to be exactly those: by a node it can be walked to and from, and by
leaving it only into a set that is never left.
-/

namespace Shep

open Relation

variable {ν : Type*} {E : ν → ν → Prop} {u v w : ν} {N C : Set ν}

/-- `u` and `v` reach each other. -/
def Strong (E : ν → ν → Prop) (u v : ν) : Prop := ReflTransGen E u v ∧ ReflTransGen E v u

namespace Strong

theorem refl (v : ν) : Strong E v v := ⟨.refl, .refl⟩

theorem symm (h : Strong E u v) : Strong E v u := ⟨h.2, h.1⟩

theorem trans (h : Strong E u v) (h' : Strong E v w) : Strong E u w :=
  ⟨h.1.trans h'.1, h'.2.trans h.2⟩

theorem imp {E' : ν → ν → Prop} (hE : ∀ u v, E u v → E' u v) (h : Strong E u v) : Strong E' u v :=
  ⟨ReflTransGen.mono hE _ _ h.1, ReflTransGen.mono hE _ _ h.2⟩

end Strong

/-- `N` is the strongly connected component of one of its nodes. -/
def IsComponent (E : ν → ν → Prop) (N : Set ν) : Prop := ∃ v, ∀ w, w ∈ N ↔ Strong E v w

/-- A set no edge leaves is not left by a walk. -/
theorem mem_of_closed (hC : ∀ u ∈ C, ∀ v, E u v → v ∈ C) (h : ReflTransGen E u v) (hu : u ∈ C) :
    v ∈ C := by
  induction h with
  | refl => exact hu
  | tail _ he ih => exact hC _ ih _ he

/-- **How a component is recognised**: its nodes are walked to and from one
of them, and its edges leave it only into a closed set apart from it. -/
theorem isComponent_of_exits (hv : v ∉ C) (hmutual : ∀ y ∈ N, Strong E v y)
    (hC : ∀ u ∈ C, ∀ w, E u w → w ∈ C) (hself : v ∈ N)
    (hexits : ∀ y ∈ N, ∀ z, E y z → z ∈ N ∨ z ∈ C) : ∀ w, w ∈ N ↔ Strong E v w := by
  intro w
  refine ⟨hmutual w, fun hw => ?_⟩
  have hboth : w ∈ N ∪ C := by
    refine mem_of_closed (C := N ∪ C) ?_ hw.1 (Or.inl hself)
    rintro y (hy | hy) z hz
    · exact hexits y hy z hz
    · exact Or.inr (hC y hy z hz)
  rcases hboth with hN | hin
  · exact hN
  · -- from the closed set there is no way back
    exact absurd (mem_of_closed hC hw.2 hin) hv

namespace IsComponent

/-- Every node of a component is walked to and from every other. -/
theorem strong (h : IsComponent E N) (hu : u ∈ N) (hv : v ∈ N) : Strong E u v := by
  obtain ⟨r, hr⟩ := h
  exact ((hr u).1 hu).symm.trans ((hr v).1 hv)

/-- A component is the one of each of its nodes. -/
theorem mem_iff (h : IsComponent E N) (hu : u ∈ N) : v ∈ N ↔ Strong E u v := by
  obtain ⟨r, hr⟩ := h
  exact ⟨fun hv => ((hr u).1 hu).symm.trans ((hr v).1 hv), fun hv => (hr v).2 (((hr u).1 hu).trans hv)⟩

/-- Two components that share a node are one. -/
theorem eq_of_mem {M : Set ν} (h : IsComponent E N) (h' : IsComponent E M) (hN : v ∈ N)
    (hM : v ∈ M) : N = M := by
  ext w
  rw [h.mem_iff hN, h'.mem_iff hM]

end IsComponent

/-- A walk between two nodes of a component stays inside it. -/
theorem IsComponent.mem_of_between (h : IsComponent E N) (hu : u ∈ N) (hv : v ∈ N)
    (huw : ReflTransGen E u w) (hwv : ReflTransGen E w v) : w ∈ N :=
  (h.mem_iff hu).2 ⟨huw, hwv.trans (h.strong hv hu).1⟩

/-- A simple closed path: no node twice, an edge from each node to the
next, and one from the last back to the first. -/
structure ClosedPath (E : ν → ν → Prop) (path : List ν) : Prop where
  nonempty : path ≠ []
  nodup : path.Nodup
  chain : path.IsChain E
  closes : ∀ first ∈ path.head?, ∀ last ∈ path.getLast?, E last first

theorem ClosedPath.imp {E' : ν → ν → Prop} {path : List ν} (hE : ∀ u v, E u v → E' u v)
    (h : ClosedPath E path) : ClosedPath E' path where
  nonempty := h.nonempty
  nodup := h.nodup
  chain := h.chain.imp hE
  closes := fun first hfirst last hlast => hE last first (h.closes first hfirst last hlast)

/-- A node on a closed walk takes every node of its component onto one. -/
theorem Strong.cycle (h : Strong E v u) (hv : TransGen E v v) : TransGen E u u := by
  rcases h.1.cases_head with rfl | ⟨w, hvw, hwu⟩
  · exact hv
  · exact TransGen.trans_right h.2 (.head' hvw hwu)

end Shep
