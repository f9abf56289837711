import Shep.Secrets.Model

/-!
# Secrets — which keys a push moves

`changed_keys` looks at the slots a push replaces and never applies it.
`get_replaced` says what a slot holds after the push, and
**`changed_exact`** that the keys reported are those whose value in the
host environment is another one then.
-/

namespace Shep

namespace Secrets

variable {table : NamespaceTable} {environment key name : String}
variable {entries : Std.ExtTreeMap String String}

/-- The slot of a key. -/
def slot (table : NamespaceTable) (key name : String) : Option String :=
  table[key]?.bind fun slots => slots[name]?

/-- Insertions of a list of entries, one slot each. -/
theorem slot_foldl (environment : String) (es : List (String × String))
    (hnodup : (es.map Prod.fst).Nodup) (table : NamespaceTable) (key name : String) :
    slot (es.foldl (fun table entry => table.insert entry.1
      ((table[entry.1]?.getD ∅).insert environment entry.2)) table) key name =
      if name = environment then (es.lookup key) <|> slot table key name else slot table key name := by
  induction es generalizing table with
  | nil => simp
  | cons e es ih =>
    obtain ⟨hout, hes⟩ := List.nodup_cons.1 hnodup
    rw [List.foldl_cons, ih hes]
    have hone : slot (table.insert e.1 ((table[e.1]?.getD ∅).insert environment e.2)) key name =
        if key = e.1 then (if name = environment then some e.2 else slot table key name)
        else slot table key name := by
      by_cases hk : key = e.1
      · subst hk
        by_cases hn : name = environment
        · simp [slot, hn]
        · cases htable : table[e.1]? <;> simp [slot, hn, htable]
      · simp [slot, hk]
    rw [hone]
    obtain ⟨k, v⟩ := e
    by_cases hn : name = environment
    · by_cases hk : key = k
      · have hnone : es.lookup key = none := by
          simp only [List.lookup_eq_none_iff, bne_iff_ne, ne_eq]
          rintro p hp rfl
          exact hout (List.mem_map.2 ⟨p, hp, hk⟩)
        rw [hnone, List.lookup_cons, beq_iff_eq.2 hk]
        simp [hn, hk]
      · rw [List.lookup_cons, beq_eq_false_iff_ne.2 hk]
        simp [hn, hk]
    · simp [hn]

/-- **What a slot holds after a push.** -/
theorem slot_replaced : slot (replaced environment entries table) key name =
    if name = environment then entries[key]? else slot table key name := by
  have hretained : ∀ name, slot (table.filterMap fun _ byEnvironment =>
      if (byEnvironment.erase environment).isEmpty then none
      else some (byEnvironment.erase environment)) key name =
        if name = environment then none else slot table key name := by
    intro name
    rw [slot, Std.ExtTreeMap.getElem?_filterMap', slot]
    cases table[key]? with
    | none => simp
    | some slots =>
      simp only [Option.bind_some]
      split
      · next hempty =>
        have hnone : (slots.erase environment)[name]? = none := by
          rw [Std.ExtTreeMap.isEmpty_iff.1 hempty]
          rfl
        rw [Table.get_erase] at hnone
        simp [hnone]
      · simp
  rw [replaced, slot_foldl _ _ (Table.nodup_keys entries), hretained, Table.lookup_toList]
  by_cases hn : name = environment <;> simp [hn]

/-- What a namespaced reference resolves to. -/
theorem value_resolve (view : SecretView) (ns key : String) :
    (view.resolve ⟨some ns, key⟩).value? =
      let table := view.providers.values[ns]?.getD ∅
      (slot table key view.environment <|> slot table key allEnvironments) := by
  have hvalue : ((view.providers.values[ns]?.bind fun table => table[key]?).bind fun slots =>
      slots[view.environment]? <|> slots[allEnvironments]?) =
        (slot (view.providers.values[ns]?.getD ∅) key view.environment <|>
          slot (view.providers.values[ns]?.getD ∅) key allEnvironments) := by
    cases htable : view.providers.values[ns]? with
    | none => simp [slot]
    | some table => cases hslots : table[key]? <;> simp [slot, hslots]
  rw [SecretView.resolve]
  dsimp only
  rw [hvalue]
  cases slot (view.providers.values[ns]?.getD ∅) key view.environment <|>
      slot (view.providers.values[ns]?.getD ∅) key allEnvironments with
  | some value => rfl
  | none =>
    dsimp only
    split <;> rfl

/-- The keys a push reports, in either answer. -/
def reported : Except CacheWriteFailed Pushed → Finset String
  | .ok pushed => pushed.changed
  | .error failed => failed.changed

theorem reported_put (s : ProviderSecrets) (p : Push) :
    reported (s.put p).1 = changedKeys s.namespaces[p.ns]? p.hostEnvironment p.environment p.entries := by
  rw [ProviderSecrets.put]
  split
  · dsimp only
    split <;> rfl
  · rfl

theorem values_put (s : ProviderSecrets) (p : Push) :
    (s.put p).2.namespaces[p.ns]? =
      some (replaced p.environment p.entries (s.namespaces[p.ns]?.getD ∅)) := by
  have hstore : (s.put p).2.namespaces = (s.store p).namespaces := by
    rw [ProviderSecrets.put]
    split <;> rfl
  rw [hstore, ProviderSecrets.store, Table.get_insert, if_pos rfl]

/-- The keys `changed_keys` finds, of a host that is not `all`. -/
theorem mem_changedKeys {table : Option NamespaceTable} {host : String} (hhost : host ≠ allEnvironments) :
    key ∈ changedKeys table host environment entries ↔
      (slot (table.getD ∅) key host <|> slot (table.getD ∅) key allEnvironments) ≠
        (slot (replaced environment entries (table.getD ∅)) key host <|>
          slot (replaced environment entries (table.getD ∅)) key allEnvironments) := by
  have hslot : ∀ name, ((table.bind fun table => table[key]?).bind fun slots => slots[name]?) =
      slot (table.getD ∅) key name := by
    intro name
    cases table with
    | none => simp [slot]
    | some table => rfl
  rw [slot_replaced, slot_replaced]
  by_cases hvisible : environment = host ∨ environment = allEnvironments
  · -- a key that is in neither the slots replaced nor the entries keeps its slot
    have hkeys : key ∈ (((table.map fun table => table.toList).getD []).filter
        fun entry => entry.2.contains environment).map Prod.fst ++ entries.toList.map Prod.fst ↔
          (slot (table.getD ∅) key environment).isSome ∨ (entries[key]?).isSome := by
      rw [List.mem_append]
      refine or_congr ?_ ?_
      · cases table with
        | none => simp [slot]
        | some table =>
          simp only [Option.map_some, Option.getD_some, List.mem_map, List.mem_filter, Prod.exists,
            exists_and_right, exists_eq_right, Table.mem_toList, slot]
          cases table[key]? <;> simp
      · simp only [List.mem_map, Prod.exists, exists_and_right, exists_eq_right, Table.mem_toList]
        exact Option.isSome_iff_exists.symm
    rw [changedKeys, if_pos hvisible]
    simp only [List.mem_toFinset, List.mem_filter, hkeys, hslot, decide_eq_true_eq]
    rcases hvisible with rfl | rfl
    · simp only [if_true, if_neg hhost.symm]
      refine ⟨fun h => h.2, fun h => ⟨?_, h⟩⟩
      by_contra hnone
      simp only [not_or, Option.not_isSome_iff_eq_none] at hnone
      exact h (by rw [hnone.1, hnone.2])
    · simp only [if_true, if_neg hhost, if_neg hhost.symm]
      refine ⟨fun h => h.2, fun h => ⟨?_, h⟩⟩
      by_contra hnone
      simp only [not_or, Option.not_isSome_iff_eq_none] at hnone
      exact h (by rw [hnone.1, hnone.2])
  · rw [changedKeys, if_neg hvisible]
    rw [not_or] at hvisible
    simp [Ne.symm hvisible.1, Ne.symm hvisible.2]

/-- **A push reports exactly the keys that moved.** For every state of the
provider's values, every host environment but `all`, and every push,
whatever becomes of its file: the keys reported are those of its namespace
whose value in the host environment is another one after it. -/
theorem changed_exact (s : ProviderSecrets) (p : Push) (hhost : p.hostEnvironment ≠ allEnvironments)
    (operator : NamespaceTable) (key : String) :
    key ∈ reported (s.put p).1 ↔
      ((SecretView.mk p.hostEnvironment operator s.snapshot).resolve ⟨some p.ns, key⟩).value? ≠
        ((SecretView.mk p.hostEnvironment operator (s.put p).2.snapshot).resolve
          ⟨some p.ns, key⟩).value? := by
  rw [reported_put, mem_changedKeys hhost, value_resolve, value_resolve]
  simp only [ProviderSecrets.snapshot, values_put, Option.getD_some]

/-- The first push of a key, for every environment. -/
def firstPush : Push where
  hostEnvironment := "production"
  ns := "vercel"
  environment := "all"
  entries := (∅ : Std.ExtTreeMap String String).insert "KEY" "1"
  persist := false
  outcome := .written

theorem changed_exact_first : "KEY" ∈ reported ((ProviderSecrets.load none).put firstPush).1 :=
  (changed_exact (.load none) firstPush (by decide) ∅ "KEY").2 (by decide +kernel)

end Secrets

end Shep
