import Mathlib.Data.Finset.Sort
import Mathlib.Data.Fintype.Pi
import Mathlib.Data.List.Infix

/-!
# Nested tables

Tables in tables, over any keys and leaves: a lookup at a path, what a write
or a removal there leaves elsewhere, and two nests that are the same because
they look the same at every path.
-/

namespace Shep

/-- A leaf, or a table of nests. Tables with the same entries are equal. -/
inductive Nest (κ α : Type) : Type where
  | leaf (a : α)
  | table (keys : Finset κ) (entries : {k // k ∈ keys} → Nest κ α)

namespace Nest

variable {κ α : Type}

/-! ## Equality -/

theorem table_eq_iff {keys keys' : Finset κ} {entries : {k // k ∈ keys} → Nest κ α}
    {entries' : {k // k ∈ keys'} → Nest κ α} :
    table keys entries = table keys' entries' ↔
      ∃ h : keys = keys', ∀ k : {k // k ∈ keys}, entries k = entries' ⟨k.1, h ▸ k.2⟩ := by
  constructor
  · intro h
    obtain ⟨rfl, h⟩ := Nest.table.inj h
    exact ⟨rfl, fun k => by rw [eq_of_heq h]⟩
  · rintro ⟨rfl, h⟩
    rw [funext h]

/-- Equality of nests, decided. -/
def decEq [DecidableEq κ] [DecidableEq α] : (v w : Nest κ α) → Decidable (v = w)
  | .leaf a, .leaf b => decidable_of_iff (a = b) (by simp)
  | .leaf _, .table _ _ => isFalse (by simp)
  | .table _ _, .leaf _ => isFalse (by simp)
  | .table keys entries, .table keys' entries' =>
    if h : keys = keys' then
      haveI : ∀ k : {k // k ∈ keys}, Decidable (entries k = entries' ⟨k.1, h ▸ k.2⟩) :=
        fun k => decEq (entries k) _
      decidable_of_iff (∀ k : {k // k ∈ keys}, entries k = entries' ⟨k.1, h ▸ k.2⟩)
        ⟨fun hall => table_eq_iff.2 ⟨h, hall⟩, fun heq => (table_eq_iff.1 heq).2⟩
    else isFalse fun heq => h (table_eq_iff.1 heq).1

instance [DecidableEq κ] [DecidableEq α] : DecidableEq (Nest κ α) := decEq

/-! ## Shapes -/

/-- Whether a nest is a table. -/
def isTable : Nest κ α → Bool
  | .leaf _ => false
  | .table _ _ => true

/-- What stands at a path: nothing, a table, or a leaf. -/
inductive Shape (α : Type) where
  | absent
  | table
  | leaf (a : α)
  deriving DecidableEq

/-- The shape of what may be none. -/
def shape : Option (Nest κ α) → Shape α
  | none => .absent
  | some (.table _ _) => .table
  | some (.leaf a) => .leaf a

@[simp] theorem shape_none : shape (none : Option (Nest κ α)) = .absent := rfl

@[simp] theorem shape_leaf (a : α) : shape (some (leaf a : Nest κ α)) = .leaf a := rfl

theorem shape_table {v : Nest κ α} (h : v.isTable = true) : shape (some v) = .table := by
  cases v with
  | leaf a => cases h
  | table keys entries => rfl

@[simp] theorem shape_eq_absent {o : Option (Nest κ α)} : shape o = .absent ↔ o = none := by
  cases o with
  | none => simp
  | some v => cases v <;> simp [shape]

theorem shape_eq_table {o : Option (Nest κ α)} :
    shape o = .table ↔ ∃ v, o = some v ∧ v.isTable = true := by
  cases o with
  | none => simp
  | some v => cases v <;> simp [shape, isTable]

theorem shape_eq_leaf {o : Option (Nest κ α)} {a : α} :
    shape o = .leaf a ↔ o = some (.leaf a) := by
  cases o with
  | none => simp
  | some v => cases v <;> simp [shape]

/-! ## Entries -/

variable [DecidableEq κ]

/-- The keys of a table. -/
def keys : Nest κ α → Finset κ
  | .leaf _ => ∅
  | .table keys _ => keys

/-- The entry of a table under a key. -/
def get : Nest κ α → κ → Option (Nest κ α)
  | .leaf _, _ => none
  | .table keys entries, k => if h : k ∈ keys then some (entries ⟨k, h⟩) else none

/-- The table without entries. -/
def empty : Nest κ α := .table ∅ fun k => absurd k.2 (Finset.notMem_empty k.1)

/-- The table that reads as `f` under the given keys. -/
def ofFn (keys : Finset κ) (f : κ → Option (Nest κ α)) : Nest κ α :=
  .table (keys.filter fun k => (f k).isSome) fun k => (f k.1).get (Finset.mem_filter.1 k.2).2

@[simp] theorem get_leaf (a : α) (k : κ) : (leaf a : Nest κ α).get k = none := rfl

@[simp] theorem get_empty (k : κ) : (empty : Nest κ α).get k = none := rfl

omit [DecidableEq κ] in
@[simp] theorem isTable_ofFn (keys : Finset κ) (f : κ → Option (Nest κ α)) :
    (ofFn keys f).isTable = true := rfl

theorem get_table {keys : Finset κ} {entries : {k // k ∈ keys} → Nest κ α} {k : κ}
    (h : k ∈ keys) : (table keys entries).get k = some (entries ⟨k, h⟩) := dif_pos h

theorem get_table_eq_some {keys : Finset κ} {entries : {k // k ∈ keys} → Nest κ α} {k : κ}
    {v : Nest κ α} : (table keys entries).get k = some v ↔ ∃ h : k ∈ keys, entries ⟨k, h⟩ = v := by
  simp [get]

theorem isTable_of_get {v w : Nest κ α} {k : κ} (h : v.get k = some w) : v.isTable = true := by
  cases v with
  | leaf a => cases h
  | table keys entries => rfl

theorem get_eq_none {v : Nest κ α} {k : κ} : v.get k = none ↔ k ∉ v.keys := by
  cases v with
  | leaf a => simp [keys]
  | table keys entries => simp [get, Nest.keys]

theorem mem_keys {v : Nest κ α} {k : κ} : k ∈ v.keys ↔ (v.get k).isSome := by
  rw [← not_iff_not, ← get_eq_none, Option.not_isSome_iff_eq_none]

theorem get_ofFn (keys : Finset κ) (f : κ → Option (Nest κ α)) (k : κ) :
    (ofFn keys f).get k = if k ∈ keys then f k else none := by
  by_cases hk : k ∈ keys
  · rw [if_pos hk]
    cases hf : f k with
    | none =>
      rw [get_eq_none]
      simp [ofFn, Nest.keys, hf]
    | some v =>
      rw [ofFn, get_table (Finset.mem_filter.2 ⟨hk, by rw [hf]; rfl⟩)]
      simp [hf]
  · rw [if_neg hk, get_eq_none]
    simp [ofFn, Nest.keys, hk]

/-- Tables that read the same are the same. -/
theorem ext_get {v w : Nest κ α} (hv : v.isTable = true) (hw : w.isTable = true)
    (h : ∀ k, v.get k = w.get k) : v = w := by
  cases v with
  | leaf a => cases hv
  | table keys entries =>
    cases w with
    | leaf a => cases hw
    | table keys' entries' =>
      have hkeys : keys = keys' := by
        ext k
        have hmem : k ∈ (table keys entries).keys ↔ k ∈ (table keys' entries').keys := by
          rw [mem_keys, mem_keys, h k]
        exact hmem
      subst hkeys
      refine table_eq_iff.2 ⟨rfl, fun k => ?_⟩
      have hk := h k.1
      rw [get_table k.2, get_table k.2] at hk
      exact Option.some.inj hk

/-- A table with one entry written. -/
def insert (v : Nest κ α) (key : κ) (w : Nest κ α) : Nest κ α :=
  ofFn (Insert.insert key v.keys) fun k => if k = key then some w else v.get k

/-- A table with one entry removed. -/
def erase (v : Nest κ α) (key : κ) : Nest κ α :=
  ofFn v.keys fun k => if k = key then none else v.get k

@[simp] theorem isTable_insert (v w : Nest κ α) (key : κ) : (v.insert key w).isTable = true := rfl

@[simp] theorem isTable_erase (v : Nest κ α) (key : κ) : (v.erase key).isTable = true := rfl

theorem get_insert (v w : Nest κ α) (key k : κ) :
    (v.insert key w).get k = if k = key then some w else v.get k := by
  rw [insert, get_ofFn]
  by_cases hk : k = key
  · simp [hk]
  · by_cases hmem : k ∈ v.keys
    · simp [hk, hmem]
    · simp [hk, hmem, get_eq_none.2 hmem]

theorem get_erase (v : Nest κ α) (key k : κ) :
    (v.erase key).get k = if k = key then none else v.get k := by
  rw [erase, get_ofFn]
  by_cases hmem : k ∈ v.keys
  · simp [hmem]
  · simp [hmem, get_eq_none.2 hmem]

/-! ## Paths -/

/-- The value at a path. -/
def walk : Nest κ α → List κ → Option (Nest κ α)
  | v, [] => some v
  | v, k :: path => (v.get k).bind (walk · path)

/-- The value at a path below what may be none. -/
def look (o : Option (Nest κ α)) (path : List κ) : Option (Nest κ α) := o.bind (walk · path)

@[simp] theorem walk_nil (v : Nest κ α) : v.walk [] = some v := rfl

theorem walk_cons (v : Nest κ α) (k : κ) (path : List κ) :
    v.walk (k :: path) = look (v.get k) path := rfl

@[simp] theorem look_none (path : List κ) : look (none : Option (Nest κ α)) path = none := rfl

@[simp] theorem look_some (v : Nest κ α) (path : List κ) : look (some v) path = v.walk path := rfl

@[simp] theorem look_nil (o : Option (Nest κ α)) : look o [] = o := by
  cases o <;> rfl

theorem look_cons (o : Option (Nest κ α)) (k : κ) (path : List κ) :
    look o (k :: path) = look (o.bind (·.get k)) path := by
  cases o <;> rfl

theorem look_append (o : Option (Nest κ α)) (path rest : List κ) :
    look o (path ++ rest) = look (look o path) rest := by
  induction path generalizing o with
  | nil => rw [List.nil_append, look_nil]
  | cons k path ih => rw [List.cons_append, look_cons, look_cons, ih]

/-! ## Nests that look the same -/

/-- Nests that look the same at every path are the same. -/
theorem ext_shape {v w : Nest κ α} (h : ∀ path, shape (v.walk path) = shape (w.walk path)) :
    v = w := by
  induction v generalizing w with
  | leaf a =>
    have hnil := h []
    exact (Option.some.inj (shape_eq_leaf.1 (hnil.symm.trans rfl))).symm
  | table keys entries ih =>
    have hw : w.isTable = true := by
      obtain ⟨v, heq, htable⟩ := shape_eq_table.1 ((h []).symm.trans rfl)
      rw [Option.some.inj heq]
      exact htable
    refine ext_get rfl hw fun k => ?_
    have hk : ∀ path, shape (look ((table keys entries).get k) path) =
        shape (look (w.get k) path) := fun path => h (k :: path)
    cases hget : w.get k with
    | none =>
      have hnil := hk []
      rw [hget] at hnil
      simpa using hnil
    | some w' =>
      have hmem : k ∈ keys := by
        by_contra hmem
        have hnone : (table keys entries).get k = none := get_eq_none.2 hmem
        have hnil := hk []
        rw [hnone, hget, look_nil, look_nil] at hnil
        exact absurd (shape_eq_absent.1 hnil.symm) (by simp)
      rw [get_table hmem] at hk ⊢
      rw [ih ⟨k, hmem⟩ (w := w') fun path => by simpa [hget] using hk path]

theorem look_ext {o o' : Option (Nest κ α)}
    (h : ∀ path, shape (look o path) = shape (look o' path)) : o = o' := by
  have hnil := h []
  rw [look_nil, look_nil] at hnil
  cases o with
  | none => exact (shape_eq_absent.1 hnil.symm).symm
  | some v =>
    cases o' with
    | none => exact shape_eq_absent.1 hnil
    | some w => rw [ext_shape h]

/-- What stands below a path stands below a table. -/
theorem shape_above {o : Option (Nest κ α)} {path rest : List κ} (hrest : rest ≠ [])
    (h : look o (path ++ rest) ≠ none) : shape (look o path) = .table := by
  rw [look_append] at h
  cases hlook : look o path with
  | none => simp [hlook] at h
  | some v =>
    obtain ⟨k, rest, rfl⟩ := List.exists_cons_of_ne_nil hrest
    cases v with
    | leaf a => simp [hlook, walk_cons] at h
    | table keys entries => rfl

end Nest

end Shep
