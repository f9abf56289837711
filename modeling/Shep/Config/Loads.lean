import Shep.Config.Fields
import Shep.Config.Merging

/-!
# Config — what a plain load spares

A load with no reset depth leaves alone every field the operator holds and
every `env` key somebody has spoken for (`SpokenFor`), in the config and on
record. `applyPlain_cases` says what it writes on each instance: the merged
config parked on all of them; or stored on all of them, where none has one
parked; or, where the merged config does not hold at the running count,
nothing on an instance with a config parked.
-/

namespace Shep

namespace Config

variable {V : Type} {h : Host V} {names : List String} {incoming : DeclaredApp V}
  {overrides : AppOverrides V} {scope : String → Bool} {r : Merging V} {k : String}

/-! ## The merge -/

theorem mergeKey_fst_of_out (hout : scope k = false) (key : String) :
    (mergeKey incoming scope r key).1[k]? = r.1[k]? := by
  unfold mergeKey
  split
  · next hin =>
    have hne : k ≠ key := by
      rintro rfl
      rw [hout] at hin
      cases hin
    exact takeKey_fst_of_ne r hne
  · rw [keepKey_fst]

theorem foldl_mergeKey_fst_of_out (hout : scope k = false) (names : List String) (r : Merging V) :
    (names.foldl (mergeKey incoming scope) r).1[k]? = r.1[k]? := by
  induction names generalizing r with
  | nil => rfl
  | cons key names ih => rw [List.foldl_cons, ih, mergeKey_fst_of_out hout]

theorem takeKey_env (r : Merging V) (key : String) :
    (takeKey incoming r key).2.env = r.2.env ∧
      (takeKey incoming r key).2.declaredEnv = r.2.declaredEnv := ⟨rfl, rfl⟩

theorem keepKey_env (r : Merging V) (key : String) :
    (keepKey incoming r key).2.env = r.2.env ∧
      (keepKey incoming r key).2.declaredEnv = r.2.declaredEnv := by
  unfold keepKey
  split
  · split <;> exact ⟨rfl, rfl⟩
  · exact ⟨rfl, rfl⟩

theorem foldl_mergeKey_env (names : List String) (r : Merging V) :
    (names.foldl (mergeKey incoming scope) r).2.env = r.2.env ∧
      (names.foldl (mergeKey incoming scope) r).2.declaredEnv = r.2.declaredEnv := by
  induction names generalizing r with
  | nil => exact ⟨rfl, rfl⟩
  | cons key names ih =>
    have hkey : (mergeKey incoming scope r key).2.env = r.2.env ∧
        (mergeKey incoming scope r key).2.declaredEnv = r.2.declaredEnv := by
      unfold mergeKey
      split
      · exact takeKey_env r key
      · exact keepKey_env r key
    rw [List.foldl_cons]
    exact ⟨(ih _).1.trans hkey.1, (ih _).2.trans hkey.2⟩

/-- Somebody has spoken for an `env` key: a file, on an earlier load, or the
operator. -/
def SpokenFor (record : AppOverrides V) (k : String) : Prop :=
  k ∈ record.declaredEnv ∨ EnvOverride.speaksFor record.env k = true

theorem appendEnv_of_spokenFor (hspoken : SpokenFor overrides k) (key : String)
    (env : Std.ExtTreeMap String String) : (appendEnv incoming overrides env key)[k]? = env[k]? := by
  unfold appendEnv
  split
  · rfl
  · next hfree =>
    split
    · have hne : k ≠ key := by
        rintro rfl
        exact hfree hspoken
      rw [Table.get_insert, if_neg hne]
    · rfl

theorem foldl_appendEnv_of_spokenFor (hspoken : SpokenFor overrides k) (keys : List String)
    (env : Std.ExtTreeMap String String) :
    (keys.foldl (appendEnv incoming overrides) env)[k]? = env[k]? := by
  induction keys generalizing env with
  | nil => rfl
  | cons key keys ih => rw [List.foldl_cons, ih, appendEnv_of_spokenFor hspoken]

/-- Of what somebody has spoken for, an override is spent only where the
file speaks for the key now. -/
theorem spokenFor_establishEnv (hspoken : SpokenFor overrides k) :
    SpokenFor (establishEnv incoming overrides) k := by
  by_cases hdeclared : k ∈ incoming.declaredEnv
  · exact .inl (Finset.mem_union_right _ hdeclared)
  · rcases hspoken with hspoken | hspoken
    · exact .inl (Finset.mem_union_left _ hspoken)
    · right
      unfold EnvOverride.speaksFor at hspoken
      split at hspoken
      · next entries henv =>
        have hentry : ((listing incoming.declaredEnv).foldl EnvOverride.spend entries)[k]? =
            entries[k]? := by
          rw [get_foldl_spend, if_neg (fun hk => hdeclared (mem_listing.1 hk.1))]
        have hcontains : ((listing incoming.declaredEnv).foldl EnvOverride.spend entries).contains k
            = true := by
          rw [Std.ExtTreeMap.contains_eq_isSome_getElem?, hentry,
            ← Std.ExtTreeMap.contains_eq_isSome_getElem?]
          exact hspoken
        have hfull : ¬ ((listing incoming.declaredEnv).foldl EnvOverride.spend entries).isEmpty
            = true := by
          intro hempty
          rw [Std.ExtTreeMap.isEmpty_iff] at hempty
          rw [hempty] at hcontains
          simp at hcontains
        unfold establishEnv
        simp only [henv, EnvOverride.ofEntries]
        rw [if_neg hfull]
        exact hcontains
      · cases hspoken

/-- **What a plain load spares.** -/
structure Spares (stored : AppConfig V) (overrides : AppOverrides V)
    (merged : AppConfig V × AppOverrides V) : Prop where
  field : ∀ k, overrides.fields.contains k = true →
    merged.1.fields[k]? = stored.fields[k]? ∧ merged.2.fields[k]? = overrides.fields[k]?
  count : merged.1.fields["instances"]? = stored.fields["instances"]?
  env : ∀ k, SpokenFor overrides k → merged.1.env[k]? = stored.env[k]? ∧ SpokenFor merged.2 k

theorem mergeDeclared_spares (names : List String) (stored : AppConfig V)
    (incoming : DeclaredApp V) (overrides : AppOverrides V) :
    Spares stored overrides (mergeDeclared names stored incoming overrides .none) := by
  have hstart : Spared overrides (inScope incoming overrides .none) (stored.fields, overrides) :=
    fun _ _ => ⟨rfl, Iff.rfl⟩
  obtain ⟨hspared, -⟩ := foldl_mergeKey incoming names hstart
  refine ⟨fun k hheld => ?_, ?_, fun k hspoken => ⟨?_, ?_⟩⟩
  · have hout : inScope incoming overrides .none k = false := by
      simp [inScope, AppOverrides.established, hheld]
    exact ⟨foldl_mergeKey_fst_of_out hout names _, (hspared k hout).1⟩
  · exact foldl_mergeKey_fst_of_out (by simp [inScope]) names _
  · exact foldl_appendEnv_of_spokenFor hspoken _ stored.env
  · apply spokenFor_establishEnv
    unfold SpokenFor
    rw [(foldl_mergeKey_env names _).1, (foldl_mergeKey_env names _).2]
    exact hspoken

/-! ## The load -/

open AppConfig

theorem carry_env (source config : AppConfig V) (field : String) :
    (source.carry config field).env = config.env := by
  unfold carry
  split <;> rfl

theorem carry_get (source config : AppConfig V) (field k : String) :
    (source.carry config field).fields[k]? = config.fields[k]? ∨
      (source.carry config field).fields[k]? = source.fields[k]? := by
  unfold carry
  split
  · next value hvalue =>
    rw [get_set]
    split
    · next hk => exact .inr (hk ▸ hvalue.symm)
    · exact .inl rfl
  · exact .inl rfl

theorem foldl_carry_get (source : AppConfig V) (fields : List String) (config : AppConfig V)
    (k : String) :
    (fields.foldl source.carry config).env = config.env ∧
      ((fields.foldl source.carry config).fields[k]? = config.fields[k]? ∨
        (fields.foldl source.carry config).fields[k]? = source.fields[k]?) := by
  induction fields generalizing config with
  | nil => exact ⟨rfl, .inl rfl⟩
  | cons field fields ih =>
    obtain ⟨henv, hfield⟩ := ih (source.carry config field)
    rw [List.foldl_cons]
    refine ⟨henv.trans (carry_env source config field), ?_⟩
    rcases hfield with hfield | hfield
    · rw [hfield]
      exact carry_get source config field k
    · exact .inr hfield

theorem normalize_get {config : AppConfig V} {next app : ResolvedApp h}
    (hok : h.normalize config = .ok next) (hk : config.fields[k]? = app.config.fields[k]?) :
    next.config.fields[k]? = app.config.fields[k]? := by
  rw [(normalize_ok hok).2, AppConfig.rewrite, Std.ExtTreeMap.getElem?_map, hk]
  cases hvalue : app.config.fields[k]? with
  | none => rfl
  | some value => rw [Option.map_some, app.canonical_get hvalue]

theorem normalize_env {config : AppConfig V} {next : ResolvedApp h}
    (hok : h.normalize config = .ok next) : next.config.env = config.env := by
  rw [(normalize_ok hok).2]
  rfl

/-- What `reached_spec` makes is, field by field, the running config or the
merged one, with the running environment. -/
theorem reachedSpec_get {running merged next : ResolvedApp h} {fields : List String}
    (hok : reachedSpec running merged fields = .ok next) (k : String) :
    next.config.env = running.config.env ∧
      (next.config.fields[k]? = running.config.fields[k]? ∨
        next.config.fields[k]? = merged.config.fields[k]?) := by
  obtain ⟨henv, hfield⟩ := foldl_carry_get merged.config fields running.config k
  refine ⟨?_, ?_⟩
  · rw [normalize_env hok, carry_env, henv]
  · rcases carry_get running.config (fields.foldl merged.config.carry running.config) "instances" k
      with hcarried | hcarried
    · rcases hfield with hfield | hfield
      · exact .inl (normalize_get hok (hcarried.trans hfield))
      · exact .inr (normalize_get hok (hcarried.trans hfield))
    · exact .inl (normalize_get hok hcarried)

/-- `with_count` moves no other field. -/
theorem withCount_get {running merged parked : ResolvedApp h}
    (hparked : withCount running merged = some parked) :
    parked.config.env = merged.config.env ∧
      (parked.config.fields["instances"]? = running.config.fields["instances"]? ∨
        parked.config.fields["instances"]? = merged.config.fields["instances"]?) ∧
      ∀ k ≠ "instances", parked.config.fields[k]? = merged.config.fields[k]? := by
  have hok := toOption_eq_some hparked
  refine ⟨?_, ?_, fun k hk => ?_⟩
  · rw [normalize_env hok, carry_env]
  · rcases carry_get running.config merged.config "instances" "instances" with hsame | hsame
    · exact .inr (normalize_get hok hsame)
    · exact .inl (normalize_get hok hsame)
  · refine normalize_get hok ?_
    unfold carry
    split
    · rw [get_set, if_neg hk]
    · rfl

theorem withCount_self {running merged : ResolvedApp h}
    (hcount : merged.config.fields["instances"]? = running.config.fields["instances"]?) :
    withCount running merged = some merged := by
  rw [withCount, carry_self hcount, normalize_config]
  rfl

/-- What a load writes, from the slot that spoke. -/
structure Loaded [DecidableEq V] (incoming : DeclaredApp V) (app app' : App h) (slot : Slot h)
    (merged : ResolvedApp h) (nextSpec parked : Option (ResolvedApp h)) : Prop where
  voice : app.voice = some slot
  normalized : h.normalize
    (mergeDeclared h.names slot.intended.config incoming app.record .none).1 = .ok merged
  slots : ∃ overridden, app'.slots = app.slots.map fun _ old => old.write nextSpec parked overridden
  speaker : app'.speaker = app.speaker
  record : app'.record = app.record ∨ ∃ unparked : List String,
    app'.record = unparked.foldl (restoreRecord app.record)
      (mergeDeclared h.names slot.intended.config incoming app.record .none).2
  stored : ∀ next, nextSpec = some next → ∃ fields, reachedSpec slot.spec merged fields = .ok next
  parks : parked = withCount slot.spec merged ∨
    parked = none ∧ app.parks = false ∧ nextSpec.isSome

/-- **A plain load touches nothing, or writes one config on every
instance.** -/
theorem applyPlain_cases [DecidableEq V] (disk : Disk) (incoming : DeclaredApp V) (app : App h) :
    (applyPlain disk incoming app).1 = app ∨
      ∃ slot merged nextSpec parked,
        Loaded incoming app (applyPlain disk incoming app).1 slot merged nextSpec parked := by
  unfold applyPlain
  split
  · exact .inl rfl
  · exact .inl rfl
  · next slot _ hvoice =>
    split
    · exact .inl rfl
    · simp only
      split
      · exact .inl rfl
      · next merged hmerged =>
        refine .inr ⟨slot, merged, _, _, hvoice, hmerged, ⟨_, rfl⟩, rfl, ?_, fun next hnext => ?_, ?_⟩
        · by_cases hdisk : disk.unwritable.isSome = true
          · exact .inl (if_pos hdisk)
          · exact .inr ⟨_, if_neg hdisk⟩
        · have hreached := toOption_eq_some hnext
          exact ⟨_, hreached⟩
        · split
          · exact .inl rfl
          · next hwanted =>
            simp only [Bool.or_eq_true, not_or, Bool.not_eq_true, Option.isNone_eq_false_iff]
              at hwanted
            exact .inr ⟨rfl, hwanted.2, hwanted.1.1⟩

end Config

end Shep
