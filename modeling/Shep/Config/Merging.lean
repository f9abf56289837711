import Shep.Config.Model

/-!
# Config — a load twice over

**`merge_declared_idempotent`**: what a load leaves is what the same load
finds. A key the first took the file's value for is either taken again or,
in the depths that append, established by the first; a key it left alone is
left alone for the same reason; and of `env` nothing is spent twice.
-/

namespace Shep

namespace Config

open Supervisor (ResetDepth)

variable {V : Type} {names : List String} {incoming : DeclaredApp V} {overrides : AppOverrides V}
  {scope : String → Bool} {r : Merging V} {k : String}

/-! ## The fields -/

theorem keepKey_fst (r : Merging V) (key : String) : (keepKey incoming r key).1 = r.1 := by
  unfold keepKey
  split
  · split <;> rfl
  · rfl

theorem keepKey_fields (r : Merging V) (key : String) :
    (keepKey incoming r key).2.fields = r.2.fields := by
  unfold keepKey
  split
  · split <;> rfl
  · rfl

theorem keepKey_declared (r : Merging V) (key : String) :
    (keepKey incoming r key).2.declared = r.2.declared := by
  unfold keepKey
  split
  · split <;> rfl
  · rfl

theorem keepKey_template_of_ne (r : Merging V) {key : String} (hk : k ≠ key) :
    (keepKey incoming r key).2.template[k]? = r.2.template[k]? := by
  unfold keepKey
  split
  · split
    · simp [hk]
    · rfl
  · rfl

theorem keepKey_template (r : Merging V) {v : V} (hfields : r.2.fields.contains k = true)
    (hdeclared : k ∈ incoming.declared) (hv : incoming.config.fields[k]? = some v) :
    (keepKey incoming r k).2.template[k]? = some v := by
  unfold keepKey
  rw [hv]
  simp [hfields, hdeclared]

theorem takeKey_fst_of_ne (r : Merging V) {key : String} (hk : k ≠ key) :
    (takeKey incoming r key).1[k]? = r.1[k]? := by
  unfold takeKey
  cases incoming.config.fields[key]? <;> simp [hk]

theorem takeKey_fst (r : Merging V) {v : V} (hv : incoming.config.fields[k]? = some v) :
    (takeKey incoming r k).1[k]? = some v := by
  unfold takeKey
  rw [hv]
  simp

theorem mem_takeKey_declared (r : Merging V) {key : String} :
    k ∈ (takeKey incoming r key).2.declared ↔
      k ∈ r.2.declared ∨ (k = key ∧ key ∈ incoming.declared) := by
  show k ∈ (if key ∈ incoming.declared then insert key r.2.declared else r.2.declared) ↔ _
  split
  · next hin => simp [hin, or_comm]
  · next hout => simp [hout]

/-- What the keys out of scope still hold, whatever has been merged. -/
def Spared (overrides : AppOverrides V) (scope : String → Bool) (r : Merging V) : Prop :=
  ∀ k, scope k = false →
    r.2.fields[k]? = overrides.fields[k]? ∧ (k ∈ r.2.declared ↔ k ∈ overrides.declared)

theorem Spared.mergeKey (h : Spared overrides scope r) (key : String) :
    Spared overrides scope (mergeKey incoming scope r key) := by
  intro k hk
  obtain ⟨hfields, hdeclared⟩ := h k hk
  unfold Config.mergeKey
  split
  · next hkey =>
    have hne : k ≠ key := by
      rintro rfl
      rw [hk] at hkey
      cases hkey
    rw [mem_takeKey_declared]
    refine ⟨?_, by simp [hne, hdeclared]⟩
    rw [takeKey, Table.get_erase, if_neg hne, hfields]
  · rw [keepKey_fields, keepKey_declared]
    exact ⟨hfields, hdeclared⟩

/-- What a key has once it is merged. -/
structure Done (incoming : DeclaredApp V) (scope : String → Bool) (k : String) (r : Merging V) :
    Prop where
  taken : scope k = true → ∀ v, incoming.config.fields[k]? = some v → r.1[k]? = some v
  spent : scope k = true → r.2.fields[k]? = none ∧ r.2.template[k]? = none
  established : scope k = true → k ∈ incoming.declared → k ∈ r.2.declared
  current : scope k = false → r.2.fields.contains k = true → k ∈ incoming.declared →
    ∀ v, incoming.config.fields[k]? = some v → r.2.template[k]? = some v

theorem done_mergeKey (r : Merging V) (k : String) :
    Done incoming scope k (mergeKey incoming scope r k) := by
  unfold mergeKey
  split
  · next hscope =>
    refine ⟨fun _ v hv => takeKey_fst r hv, fun _ => ?_, fun _ hk => ?_, fun hout => ?_⟩
    · simp [takeKey]
    · exact (mem_takeKey_declared r).2 (.inr ⟨rfl, hk⟩)
    · rw [hscope] at hout
      cases hout
  · next hscope =>
    refine ⟨fun hin => absurd hin hscope, fun hin => absurd hin hscope,
      fun hin => absurd hin hscope, fun _ hfields hdeclared v hv => ?_⟩
    rw [keepKey_fields] at hfields
    exact keepKey_template r hfields hdeclared hv

/-- Another key's merge leaves it as it is. -/
theorem Done.mergeKey (h : Done incoming scope k r) {key : String} (hne : k ≠ key) :
    Done incoming scope k (mergeKey incoming scope r key) := by
  unfold Config.mergeKey
  split
  · refine ⟨fun hin v hv => ?_, fun hin => ?_, fun hin hk => ?_, fun hout hfields hk v hv => ?_⟩
    · rw [takeKey_fst_of_ne r hne, h.taken hin v hv]
    · simpa [takeKey, hne] using h.spent hin
    · exact (mem_takeKey_declared r).2 (.inl (h.established hin hk))
    · have hfields' : r.2.fields.contains k = true := by
        have : (r.2.fields.erase key).contains k = true := hfields
        rw [Std.ExtTreeMap.contains_erase] at this
        exact (Bool.and_eq_true _ _ ▸ this).2
      simpa [takeKey, hne] using h.current hout hfields' hk v hv
  · refine ⟨fun hin v hv => ?_, fun hin => ?_, fun hin hk => ?_, fun hout hfields hk v hv => ?_⟩
    · rw [keepKey_fst, h.taken hin v hv]
    · rw [keepKey_fields, keepKey_template_of_ne r hne]
      exact h.spent hin
    · rw [keepKey_declared]
      exact h.established hin hk
    · rw [keepKey_fields] at hfields
      rw [keepKey_template_of_ne r hne, h.current hout hfields hk v hv]

/-- **What a pass over the names leaves**: every key of it is merged, and
every key out of scope is spared. -/
theorem foldl_mergeKey (incoming : DeclaredApp V) (names : List String)
    (h : Spared overrides scope r) :
    Spared overrides scope (names.foldl (mergeKey incoming scope) r) ∧
      ∀ k, (k ∈ names ∨ Done incoming scope k r) →
        Done incoming scope k (names.foldl (mergeKey incoming scope) r) := by
  induction names generalizing r with
  | nil => exact ⟨h, fun k hk => hk.resolve_left (by simp)⟩
  | cons key names ih =>
    have hkey : Spared overrides scope (mergeKey incoming scope r key) := h.mergeKey key
    obtain ⟨hspared, hdone⟩ := ih hkey
    refine ⟨hspared, fun k hk => hdone k ?_⟩
    by_cases hkey : k = key
    · subst hkey
      exact .inr (done_mergeKey r k)
    · rcases hk with hk | hk
      · rcases List.mem_cons.1 hk with hk | hk
        · exact absurd hk hkey
        · exact .inl hk
      · exact .inr (hk.mergeKey hkey)

theorem takeKey_eq_self (h : Done incoming scope k r) (hscope : scope k = true) :
    takeKey incoming r k = r := by
  obtain ⟨hfields, htemplate⟩ := h.spent hscope
  have hdeclared : (if k ∈ incoming.declared then insert k r.2.declared else r.2.declared) =
      r.2.declared := by
    split
    · next hk => exact Finset.insert_eq_of_mem (h.established hscope hk)
    · rfl
  refine Prod.ext ?_ ?_
  · unfold takeKey
    cases hv : incoming.config.fields[k]? with
    | none => rfl
    | some v => exact Table.insert_self (h.taken hscope v hv)
  · simp only [takeKey, hdeclared, Table.erase_self hfields, Table.erase_self htemplate]

theorem keepKey_eq_self (h : r.2.fields.contains k = true → k ∈ incoming.declared →
    ∀ v, incoming.config.fields[k]? = some v → r.2.template[k]? = some v) :
    keepKey incoming r k = r := by
  unfold keepKey
  split
  · next v hv =>
    split
    · next hk => rw [Table.insert_self (h hk.1 hk.2 v hv)]
    · rfl
  · rfl

theorem foldl_mergeKey_eq_self (h : ∀ k ∈ names, mergeKey incoming scope r k = r) :
    names.foldl (mergeKey incoming scope) r = r := by
  induction names with
  | nil => rfl
  | cons key names ih =>
    rw [List.foldl_cons, h key List.mem_cons_self]
    exact ih fun k hk => h k (List.mem_cons_of_mem _ hk)

/-- **The same load finds every key as it left it.** A key the first pass
took is taken again or by now established, one it spared is spared again. -/
theorem mergeKey_again {reset : ResetDepth} {next : AppOverrides V}
    (hspared : Spared overrides (inScope incoming overrides reset) r)
    (hdone : Done incoming (inScope incoming overrides reset) k r)
    (hfields : next.fields = r.2.fields) (hdeclared : next.declared = r.2.declared) :
    mergeKey incoming (inScope incoming next reset) r k = r := by
  have hestablished : inScope incoming overrides reset k = false →
      next.established k = overrides.established k := by
    intro hscope
    obtain ⟨hsame, hiff⟩ := hspared k hscope
    rw [AppOverrides.established, AppOverrides.established, hfields, hdeclared,
      Std.ExtTreeMap.contains_eq_isSome_getElem?, Std.ExtTreeMap.contains_eq_isSome_getElem?, hsame]
    simp [hiff]
  unfold mergeKey
  by_cases hscope : inScope incoming overrides reset k = true
  · by_cases hagain : inScope incoming next reset k = true
    · rw [if_pos hagain]
      exact takeKey_eq_self hdone hscope
    · rw [if_neg hagain]
      refine keepKey_eq_self fun hcontains => ?_
      rw [Std.ExtTreeMap.contains_eq_isSome_getElem?, (hdone.spent hscope).1] at hcontains
      cases hcontains
  · have hout : inScope incoming overrides reset k = false := by simpa using hscope
    have hsame := hestablished hout
    have hagain : inScope incoming next reset k = false := by
      cases reset with
      | policy | all => cases hout
      | file => exact hout
      | none | env =>
        unfold inScope at hout ⊢
        rwa [hsame]
    rw [if_neg (by simp [hagain])]
    exact keepKey_eq_self (hdone.current hout)

/-! ## `env` -/

theorem get_spend (entries : Std.ExtTreeMap String (Option String)) (key : String) :
    (EnvOverride.spend entries key)[k]? =
      if k = key ∧ entries[k]? ≠ some none then none else entries[k]? := by
  unfold EnvOverride.spend
  by_cases hk : k = key
  · subst hk
    split
    · next hnull => simp [hnull]
    · next hnull => simp [hnull]
  · split
    · simp [hk]
    · simp [hk]

theorem get_foldl_spend (keys : List String) (entries : Std.ExtTreeMap String (Option String)) :
    (keys.foldl EnvOverride.spend entries)[k]? =
      if k ∈ keys ∧ entries[k]? ≠ some none then none else entries[k]? := by
  induction keys generalizing entries with
  | nil => simp
  | cons key keys ih =>
    rw [List.foldl_cons, ih, get_spend]
    by_cases hk : k = key
    · subst hk
      by_cases hnull : entries[k]? = some none
      · simp [hnull]
      · simp [hnull]
    · by_cases hin : k ∈ keys
      · simp [hk, hin]
      · simp [hk, hin]

theorem foldl_spend_again (keys : List String) (entries : Std.ExtTreeMap String (Option String)) :
    keys.foldl EnvOverride.spend (keys.foldl EnvOverride.spend entries) =
      keys.foldl EnvOverride.spend entries := by
  apply Std.ExtTreeMap.ext_getElem?
  intro k
  rw [get_foldl_spend, get_foldl_spend]
  split
  · split <;> simp_all
  · rfl

/-- `establish_env` a second time. -/
theorem establishEnv_again (next : AppOverrides V) :
    establishEnv incoming (establishEnv incoming next) = establishEnv incoming next := by
  obtain ⟨fields, env, declared, declaredEnv, template⟩ := next
  unfold establishEnv
  simp only [AppOverrides.mk.injEq, true_and, and_true]
  refine ⟨?_, by simp⟩
  cases env with
  | none => rfl
  | some env =>
    cases env with
    | other value => rfl
    | object entries =>
      simp only [EnvOverride.ofEntries]
      by_cases hempty : ((listing incoming.declaredEnv).foldl EnvOverride.spend entries).isEmpty
      · simp [hempty]
      · rw [if_neg hempty]
        simp only [foldl_spend_again]
        rw [if_neg hempty]

theorem foldl_appendEnv_eq_self {keys : List String} {next : AppOverrides V}
    (h : ∀ k ∈ keys, k ∈ next.declaredEnv) (env : Std.ExtTreeMap String String) :
    keys.foldl (appendEnv incoming next) env = env := by
  induction keys with
  | nil => rfl
  | cons key keys ih =>
    have hkey : appendEnv incoming next env key = env := by
      unfold appendEnv
      rw [if_pos (.inl (h key List.mem_cons_self))]
    rw [List.foldl_cons, hkey]
    exact ih fun k hk => h k (List.mem_cons_of_mem _ hk)

/-! ## The whole load -/

/-- The fields of a load, met again with another `env` on record. -/
theorem foldl_mergeKey_again (names : List String) (stored : Std.ExtTreeMap String V)
    (incoming : DeclaredApp V) (overrides : AppOverrides V) (reset : ResetDepth)
    {fields : Std.ExtTreeMap String V} {left next : AppOverrides V}
    (hpass : names.foldl (mergeKey incoming (inScope incoming overrides reset))
      (stored, overrides) = (fields, left))
    (hfields : next.fields = left.fields) (hdeclared : next.declared = left.declared)
    (htemplate : next.template = left.template) :
    names.foldl (mergeKey incoming (inScope incoming next reset)) (fields, next) =
      (fields, next) := by
  have hstart : Spared overrides (inScope incoming overrides reset) (stored, overrides) :=
    fun _ _ => ⟨rfl, Iff.rfl⟩
  obtain ⟨hspared, hdone⟩ := foldl_mergeKey incoming names hstart
  rw [hpass] at hspared hdone
  -- neither says anything of `env`, so both hold of `next` too
  have hspared' : Spared overrides (inScope incoming overrides reset) (fields, next) := by
    intro k hk
    show next.fields[k]? = _ ∧ (k ∈ next.declared ↔ _)
    rw [hfields, hdeclared]
    exact hspared k hk
  refine foldl_mergeKey_eq_self fun k hk => ?_
  obtain ⟨htaken, hspent, hestablished, hcurrent⟩ := hdone k (.inl hk)
  have hdone' : Done incoming (inScope incoming overrides reset) k (fields, next) := by
    refine ⟨htaken, ?_, ?_, ?_⟩
    · show _ → next.fields[k]? = none ∧ next.template[k]? = none
      rw [hfields, htemplate]
      exact hspent
    · show _ → _ → k ∈ next.declared
      rw [hdeclared]
      exact hestablished
    · show _ → next.fields.contains k = true → _ → ∀ v, _ → next.template[k]? = some v
      rw [hfields, htemplate]
      exact hcurrent
  exact mergeKey_again hspared' hdone' rfl rfl

/-- What a load leaves, the same load leaves again. -/
theorem mergeDeclared_again (names : List String) (stored : AppConfig V)
    (incoming : DeclaredApp V) (overrides : AppOverrides V) (reset : ResetDepth) :
    mergeDeclared names (mergeDeclared names stored incoming overrides reset).1 incoming
        (mergeDeclared names stored incoming overrides reset).2 reset =
      mergeDeclared names stored incoming overrides reset := by
  obtain ⟨fields, left, hpass⟩ : ∃ fields left,
      names.foldl (mergeKey incoming (inScope incoming overrides reset))
        (stored.fields, overrides) = (fields, left) := ⟨_, _, rfl⟩
  have hagain (next : AppOverrides V) (hfields : next.fields = left.fields)
      (hdeclared : next.declared = left.declared) (htemplate : next.template = left.template) :
      names.foldl (mergeKey incoming (inScope incoming next reset)) (fields, next) =
        (fields, next) :=
    foldl_mergeKey_again names stored.fields incoming overrides reset hpass hfields hdeclared
      htemplate
  cases reset with
  | policy | file =>
    have hfirst := hagain left rfl rfl rfl
    unfold mergeDeclared
    rw [hpass]
    simp only [hfirst]
  | all | env =>
    have hfirst := hagain (establishEnv incoming { left with env := none }) rfl rfl rfl
    unfold mergeDeclared
    rw [hpass]
    simp only [hfirst]
    -- the override was gone already
    show (_, establishEnv incoming (establishEnv incoming { left with env := none })) = _
    rw [establishEnv_again]
  | none =>
    have hfirst := hagain (establishEnv incoming left) rfl rfl rfl
    have hkeys : ∀ k ∈ listing incoming.declaredEnv,
        k ∈ (establishEnv incoming left).declaredEnv := by
      intro k hk
      exact Finset.mem_union_right _ (mem_listing.1 hk)
    unfold mergeDeclared
    rw [hpass]
    simp only [hfirst, foldl_appendEnv_eq_self hkeys, establishEnv_again]

theorem driftedFields_self [DecidableEq V] (config : AppConfig V) :
    config.driftedFields config = [] := by
  have hfields : config.fields.toList.filter
      (fun entry => config.fields[entry.1]? != some entry.2) = [] := by
    rw [List.filter_eq_nil_iff]
    intro entry hentry
    have : config.fields[entry.1]? = some entry.2 :=
      Std.ExtTreeMap.mem_toList_iff_getElem?_eq_some.1 hentry
    simp [this]
  unfold AppConfig.driftedFields
  rw [hfields]
  simp

/-- **A load twice over is a load once.** Merging the same file again into
what the first merge made leaves the config and the override record as they
are, at every depth, and no field has drifted. -/
theorem merge_declared_idempotent [DecidableEq V] (names : List String) (stored : AppConfig V)
    (incoming : DeclaredApp V) (overrides : AppOverrides V) (reset : ResetDepth) :
    let first := mergeDeclared names stored incoming overrides reset
    let second := mergeDeclared names first.1 incoming first.2 reset
    second.1 = first.1 ∧ second.2 = first.2 ∧ first.1.driftedFields second.1 = [] := by
  intro first second
  have hsame : second = first := mergeDeclared_again names stored incoming overrides reset
  refine ⟨by rw [hsame], by rw [hsame], ?_⟩
  rw [hsame]
  exact driftedFields_self first.1

end Config

end Shep
