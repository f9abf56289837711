import Mathlib.Data.Fintype.Card
import Mathlib.Data.Fintype.Sets
import Mathlib.Data.Set.Finite.Basic
import Mathlib.Data.List.Nodup
import Mathlib.Logic.Relation
import Mathlib.Order.WellFounded

/-!
# Layers

A list of stages, where each element of a stage needs things placed in the
stages before it. `Staged` says so by recursion, which is how stages are
built and joined; `Placed` says at which stage an element stands, which is
how an order is read off.
-/

namespace Shep

open Relation

variable {ν : Type*} {E : ν → ν → Prop} {before : Set ν} {stages later : List (List ν)} {u v : ν}
  {i j : ℕ}

/-- `v` stands at stage `i`. -/
def Placed (stages : List (List ν)) (i : ℕ) (v : ν) : Prop :=
  ∃ stage, stages[i]? = some stage ∧ v ∈ stage

/-- What each element of a stage needs is in `before`, or in a stage above
it. -/
def Staged (E : ν → ν → Prop) : Set ν → List (List ν) → Prop
  | _, [] => True
  | before, stage :: stages =>
    (∀ u ∈ stage, ∀ d, E u d → d ∈ before) ∧ Staged E (before ∪ {v | v ∈ stage}) stages

theorem exists_placed_iff : (∃ i, Placed stages i v) ↔ v ∈ stages.flatten := by
  rw [List.mem_flatten]
  constructor
  · rintro ⟨i, stage, hi, hv⟩
    exact ⟨stage, List.mem_of_getElem? hi, hv⟩
  · rintro ⟨stage, hstage, hv⟩
    obtain ⟨i, hi⟩ := List.mem_iff_getElem?.1 hstage
    exact ⟨i, stage, hi, hv⟩

theorem Placed.mem (h : Placed stages i v) : v ∈ stages.flatten := exists_placed_iff.1 ⟨i, h⟩

/-- Where an element of two lists joined stands. -/
theorem placed_append : Placed (stages ++ later) i v ↔
    Placed stages i v ∨ stages.length ≤ i ∧ Placed later (i - stages.length) v := by
  unfold Placed
  by_cases hi : i < stages.length
  · rw [List.getElem?_append_left hi]
    simp [Nat.not_le.2 hi]
  · have hle : stages.length ≤ i := by omega
    rw [List.getElem?_append_right hle, List.getElem?_eq_none hle]
    simp [hle]

/-- Where each element stands once, it stands at one stage. -/
theorem Placed.unique (hnodup : stages.flatten.Nodup) (hi : Placed stages i v)
    (hj : Placed stages j v) : i = j := by
  have hpair := (List.nodup_flatten.1 hnodup).2
  rw [List.pairwise_iff_getElem] at hpair
  obtain ⟨a, ha, hva⟩ := hi
  obtain ⟨b, hb, hvb⟩ := hj
  obtain ⟨hia, rfl⟩ := List.getElem?_eq_some_iff.1 ha
  obtain ⟨hjb, rfl⟩ := List.getElem?_eq_some_iff.1 hb
  rcases Nat.lt_trichotomy i j with hlt | heq | hlt
  · exact absurd hvb (List.disjoint_left.1 (hpair i j hia hjb hlt) hva)
  · exact heq
  · exact absurd hva (List.disjoint_left.1 (hpair j i hjb hia hlt) hvb)

/-- Where each element stands once, what is placed in the first of two
lists stands above what is placed in the second. -/
theorem Placed.lt_of_append (hnodup : (stages ++ later).flatten.Nodup)
    (hu : u ∈ stages.flatten) (hv : v ∈ later.flatten) (hi : Placed (stages ++ later) i u)
    (hj : Placed (stages ++ later) j v) : i < j := by
  rw [List.flatten_append] at hnodup
  have happart := (List.nodup_append.1 hnodup).2.2
  rcases placed_append.1 hj with hj | ⟨hj, -⟩
  · exact absurd rfl (happart v hj.mem v hv)
  · rcases placed_append.1 hi with ⟨stage, hi, -⟩ | ⟨-, hi⟩
    · have hlt := (List.getElem?_eq_some_iff.1 hi).1
      omega
    · exact absurd rfl (happart u hu u hi.mem)

/-- A list of stages cut in two between an element and one above it. -/
theorem Placed.split (hi : Placed stages i u) (hj : Placed stages j v) (hlt : i < j) :
    u ∈ (stages.take j).flatten ∧ v ∈ (stages.drop j).flatten := by
  obtain ⟨a, ha, hu⟩ := hi
  obtain ⟨b, hb, hv⟩ := hj
  refine ⟨List.mem_flatten.2 ⟨a, List.mem_of_getElem? (i := i) ?_, hu⟩,
    List.mem_flatten.2 ⟨b, List.mem_of_getElem? (i := 0) ?_, hv⟩⟩
  · rw [List.getElem?_take_of_lt hlt, ha]
  · rw [List.getElem?_drop, Nat.add_zero, hb]

namespace Staged

theorem append : Staged E before (stages ++ later) ↔
    Staged E before stages ∧ Staged E (before ∪ {v | v ∈ stages.flatten}) later := by
  induction stages generalizing before with
  | nil => simp [Staged]
  | cons stage stages ih =>
    have hset : before ∪ {v | v ∈ stage} ∪ {v | v ∈ stages.flatten} =
        before ∪ {v | v ∈ (stage :: stages).flatten} := by
      ext v
      simp only [Set.mem_union, Set.mem_ofPred_eq, List.flatten_cons, List.mem_append, or_assoc]
    rw [List.cons_append, Staged, Staged, ih, hset, and_assoc]

/-- Fewer needs are met by the same stages. -/
theorem imp {E' : ν → ν → Prop} (hE : ∀ u d, E' u d → E u d) (h : Staged E before stages) :
    Staged E' before stages := by
  induction stages generalizing before with
  | nil => trivial
  | cons stage stages ih => exact ⟨fun u hu d hd => h.1 u hu d (hE u d hd), ih h.2⟩

/-- What an element needs stands before it. -/
theorem needs (h : Staged E before stages) (hi : Placed stages i u) {d : ν} (he : E u d) :
    d ∈ before ∨ ∃ j < i, Placed stages j d := by
  induction stages generalizing before i with
  | nil =>
    obtain ⟨stage, hstage, -⟩ := hi
    simp at hstage
  | cons stage stages ih =>
    obtain ⟨hnow, hrest⟩ := h
    cases i with
    | zero =>
      obtain ⟨found, hfound, hu⟩ := hi
      simp only [List.getElem?_cons_zero, Option.some.injEq] at hfound
      exact Or.inl (hnow u (hfound ▸ hu) d he)
    | succ i =>
      obtain ⟨found, hfound, hu⟩ := hi
      rw [List.getElem?_cons_succ] at hfound
      rcases ih hrest ⟨found, hfound, hu⟩ with (hb | hs) | ⟨j, hj, hd⟩
      · exact Or.inl hb
      · exact Or.inr ⟨0, Nat.succ_pos i, stage, rfl, hs⟩
      · obtain ⟨found, hat, hin⟩ := hd
        exact Or.inr ⟨j + 1, by omega, found, by simpa using hat, hin⟩

end Staged

/-- A finite set on which no walk closes has an element that goes nowhere
inside it. -/
theorem exists_sink (N : Finset ν) (hne : N.Nonempty) (hacyclic : ∀ v ∈ N, ¬ TransGen E v v) :
    ∃ v ∈ N, ∀ w ∈ N, ¬ E v w := by
  let r : N → N → Prop := fun a b => TransGen E b.1 a.1
  have htrans : IsTrans N r := ⟨fun a b c hab hbc => TransGen.trans hbc hab⟩
  have hirrefl : Std.Irrefl r := ⟨fun a ha => hacyclic a.1 a.2 ha⟩
  have hfinite : Finite N := N.finite_toSet
  have hwf : WellFounded r := Finite.wellFounded_of_trans_of_irrefl r
  obtain ⟨v, hv⟩ := hne
  obtain ⟨m, -, hmin⟩ := hwf.has_min Set.univ ⟨⟨v, hv⟩, trivial⟩
  exact ⟨m.1, m.2, fun w hw he => hmin ⟨w, hw⟩ trivial (.single he)⟩

end Shep
