import Mathlib.Data.List.Sort
import Mathlib.Tactic.Linarith

/-!
# Tables

Finite maps with extensional equality, over any ordered key type: what a
lookup reads after an insertion, a removal or a map over the values, with
key comparisons stated as equalities, and when two ways of writing a table
are the same one.
-/

namespace Shep

namespace Table

variable {κ : Type*} [Ord κ] [Std.TransOrd κ] [Std.LawfulEqOrd κ] [DecidableEq κ]
variable {α β : Type*}

/-- What a lookup reads after an insertion. -/
@[simp] theorem get_insert (m : Std.ExtTreeMap κ α) (k j : κ) (v : α) :
    (m.insert k v)[j]? = if j = k then some v else m[j]? := by
  rw [Std.ExtTreeMap.getElem?_insert]
  by_cases h : j = k
  · subst h
    simp
  · have h' : ¬ k = j := fun e => h e.symm
    simp [h, h']

/-- What a lookup reads after a removal. -/
@[simp] theorem get_erase (m : Std.ExtTreeMap κ α) (k j : κ) :
    (m.erase k)[j]? = if j = k then none else m[j]? := by
  rw [Std.ExtTreeMap.getElem?_erase]
  by_cases h : j = k
  · subst h
    simp
  · have h' : ¬ k = j := fun e => h e.symm
    simp [h, h']

omit [DecidableEq κ] in
/-- What a lookup reads after a map over the values. -/
@[simp] theorem get_map (m : Std.ExtTreeMap κ α) (f : α → β) (j : κ) :
    (m.map fun _ v => f v)[j]? = (m[j]?).map f := by
  rw [Std.ExtTreeMap.getElem?_map]

/-- What a table holds after an insertion. -/
theorem of_insert {m : Std.ExtTreeMap κ α} {k j : κ} {v u : α} (h : (m.insert k v)[j]? = some u) :
    j = k ∧ v = u ∨ j ≠ k ∧ m[j]? = some u := by
  rw [get_insert] at h
  split at h
  · next e => exact .inl ⟨e, Option.some.inj h⟩
  · next e => exact .inr ⟨e, h⟩

/-- What it holds after a removal. -/
theorem of_erase {m : Std.ExtTreeMap κ α} {k j : κ} {u : α} (h : (m.erase k)[j]? = some u) :
    j ≠ k ∧ m[j]? = some u := by
  rw [get_erase] at h
  split at h
  · cases h
  · next e => exact ⟨e, h⟩

/-- The later of two insertions under one key stands. -/
@[simp] theorem insert_insert (m : Std.ExtTreeMap κ α) (k : κ) (v v' : α) :
    (m.insert k v).insert k v' = m.insert k v' := by
  apply Std.ExtTreeMap.ext_getElem?
  intro j
  simp only [get_insert]
  split <;> rfl

/-- An insertion forgets a removal under the same key. -/
@[simp] theorem insert_erase (m : Std.ExtTreeMap κ α) (k : κ) (v : α) :
    (m.erase k).insert k v = m.insert k v := by
  apply Std.ExtTreeMap.ext_getElem?
  intro j
  simp only [get_insert, get_erase]
  split <;> rfl

/-- A removal forgets an insertion under the same key. -/
@[simp] theorem erase_insert (m : Std.ExtTreeMap κ α) (k : κ) (v : α) :
    (m.insert k v).erase k = m.erase k := by
  apply Std.ExtTreeMap.ext_getElem?
  intro j
  simp only [get_insert, get_erase]
  split <;> rfl

/-- Writing what is already there changes nothing. -/
theorem insert_self {m : Std.ExtTreeMap κ α} {k : κ} {v : α} (h : m[k]? = some v) :
    m.insert k v = m := by
  apply Std.ExtTreeMap.ext_getElem?
  intro j
  rw [get_insert]
  split
  · next e => rw [e, h]
  · rfl

/-- Removing what is not there changes nothing. -/
theorem erase_self {m : Std.ExtTreeMap κ α} {k : κ} (h : m[k]? = none) : m.erase k = m := by
  apply Std.ExtTreeMap.ext_getElem?
  intro j
  rw [get_erase]
  split
  · next e => rw [e, h]
  · rfl

/-- Insertions under two keys commute. -/
theorem insert_comm (m : Std.ExtTreeMap κ α) {k k' : κ} (v v' : α) (h : k ≠ k') :
    (m.insert k v).insert k' v' = (m.insert k' v').insert k v := by
  apply Std.ExtTreeMap.ext_getElem?
  intro j
  simp only [get_insert]
  by_cases h1 : j = k
  · have h2 : ¬ j = k' := fun e => h (h1.symm.trans e)
    simp [h1, h]
  · simp [h1]

omit [DecidableEq κ] in
/-- The listing of a table holds exactly its entries. -/
theorem mem_toList {m : Std.ExtTreeMap κ α} {k : κ} {v : α} :
    (k, v) ∈ m.toList ↔ m[k]? = some v :=
  Std.ExtTreeMap.mem_toList_iff_getElem?_eq_some

omit [DecidableEq κ] in
/-- No key is listed twice. -/
theorem nodup_keys (m : Std.ExtTreeMap κ α) : (m.toList.map Prod.fst).Nodup := by
  have h := Std.ExtTreeMap.distinct_keys_toList (t := m)
  rw [List.Nodup, List.pairwise_map]
  exact h.imp fun hne he => hne (by simp [he])

/-- A key is looked up in the listing as in the table. -/
theorem lookup_toList (m : Std.ExtTreeMap κ α) (k : κ) : m.toList.lookup k = m[k]? := by
  refine Option.ext fun v => ?_
  rw [← mem_toList, List.lookup_eq_some_iff]
  constructor
  · rintro ⟨before, after, hsplit, -⟩
    rw [hsplit]
    exact List.mem_append_right _ List.mem_cons_self
  · intro hin
    obtain ⟨before, after, hsplit⟩ := List.append_of_mem hin
    refine ⟨before, after, hsplit, fun p hp => ?_⟩
    have hnodup := nodup_keys m
    rw [hsplit, List.map_append, List.nodup_append'] at hnodup
    simp only [bne_iff_ne]
    rintro rfl
    exact hnodup.2.2 (List.mem_map_of_mem hp) (by simp)

/-- A table is made again of its listing. -/
theorem ofList_toList (m : Std.ExtTreeMap κ α) : .ofList m.toList = m := by
  apply Std.ExtTreeMap.ext_getElem?
  intro j
  cases hj : m[j]? with
  | none =>
    refine Std.ExtTreeMap.getElem?_ofList_of_contains_eq_false ?_
    rw [← Bool.not_eq_true, List.contains_iff_mem]
    intro hin
    obtain ⟨⟨k, v⟩, hkv, rfl⟩ := List.mem_map.1 hin
    rw [mem_toList.1 hkv] at hj
    cases hj
  | some v =>
    exact Std.ExtTreeMap.getElem?_ofList_of_mem Std.ReflCmp.compare_self
      Std.ExtTreeMap.distinct_keys_toList (mem_toList.2 hj)

/-- The listing of a table, with one entry put first. -/
theorem perm_erase {m : Std.ExtTreeMap κ α} {k : κ} {v : α} (h : m[k]? = some v) :
    m.toList.Perm ((k, v) :: (m.erase k).toList) := by
  have hout : (k, v) ∉ (m.erase k).toList := by
    rw [mem_toList, get_erase, if_pos rfl]
    exact nofun
  refine (List.perm_ext_iff_of_nodup ((nodup_keys m).of_map _)
    (List.nodup_cons.2 ⟨hout, (nodup_keys (m.erase k)).of_map _⟩)).2 ?_
  rintro ⟨j, w⟩
  rw [List.mem_cons, mem_toList, mem_toList, get_erase, Prod.mk.injEq]
  by_cases hj : j = k
  · simp only [hj, h, if_true, true_and, reduceCtorEq, or_false, Option.some.injEq]
    exact eq_comm
  · simp [hj]

/-- The listing after an insertion, the new entry put first. -/
theorem perm_insert (m : Std.ExtTreeMap κ α) (k : κ) (v : α) :
    (m.insert k v).toList.Perm ((k, v) :: (m.erase k).toList) := by
  have h := perm_erase (m := m.insert k v) (k := k) (v := v) (by simp)
  rwa [erase_insert] at h

/-- Every entry satisfies `P`. -/
def Each (P : κ → α → Prop) (m : Std.ExtTreeMap κ α) : Prop :=
  ∀ (k : κ) (v : α), m[k]? = some v → P k v

namespace Each

variable {P Q : κ → α → Prop} {m : Std.ExtTreeMap κ α}

theorem insert (h : Each P m) {k : κ} {v : α} (hv : P k v) : Each P (m.insert k v) := by
  intro j u hu
  rcases of_insert hu with ⟨rfl, rfl⟩ | ⟨-, hu⟩
  · exact hv
  · exact h j u hu

theorem erase (h : Each P m) (k : κ) : Each P (m.erase k) := fun j u hu =>
  h j u (of_erase hu).2

omit [DecidableEq κ] in
theorem map {f : α → α} (h : Each P m) (hf : ∀ k v, m[k]? = some v → P k v → P k (f v)) :
    Each P (m.map fun _ v => f v) := by
  intro j u hu
  rw [get_map, Option.map_eq_some_iff] at hu
  obtain ⟨v, hv, rfl⟩ := hu
  exact hf j v hv (h j v hv)

omit [DecidableEq κ] [Std.LawfulEqOrd κ] in
theorem imp (h : Each P m) (hPQ : ∀ k v, m[k]? = some v → P k v → Q k v) : Each Q m :=
  fun k v hv => hPQ k v hv (h k v hv)

end Each

end Table

end Shep
