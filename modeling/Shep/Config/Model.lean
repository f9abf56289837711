import Mathlib.Data.String.Basic
import Shep.Common.Listing
import Shep.Common.Table
import Shep.Supervisor.Model.Actor

/-!
# Config — an app's settings, and who has spoken for them

`supervisor/config_merge.rs` over the override record of
`shep-core/src/overrides.rs`: what a load of a Flockfile changes on a
registered app, and what it leaves on record.

A config is the object it serializes to: `env`, a table of strings, and
under every other field's name a value of some type `V`. The loops over an
object's keys and over the file's keys run in their order. An override
record may hold fields of a newer shep, and an `env` override this shep
cannot read.
-/

namespace Shep

namespace Config

open Supervisor (ResetDepth)

variable {V : Type}

/-- `AppConfig`, as the object it serializes to. -/
structure AppConfig (V : Type) where
  /-- Every field but `env`, by name. -/
  fields : Std.ExtTreeMap String V
  env : Std.ExtTreeMap String String

/-- `DeclaredApp`. -/
structure DeclaredApp (V : Type) where
  config : AppConfig V
  declared : Finset String
  declaredEnv : Finset String

/-- What an override record holds under `env`. -/
inductive EnvOverride (V : Type) where
  /-- A value for each key, `none` for a tombstone. -/
  | object (entries : Std.ExtTreeMap String (Option String))
  /-- Anything else. -/
  | other (value : V)

/-- `AppOverrides`. -/
structure AppOverrides (V : Type) where
  /-- `fields`, but for `env`. -/
  fields : Std.ExtTreeMap String V := ∅
  /-- `fields["env"]`. -/
  env : Option (EnvOverride V) := none
  declared : Finset String := ∅
  declaredEnv : Finset String := ∅
  template : Std.ExtTreeMap String V := ∅

namespace EnvOverride

/-- The keys an `env` override speaks for. -/
def speaksFor (env : Option (EnvOverride V)) (key : String) : Bool :=
  match env with
  | some (.object entries) => entries.contains key
  | _ => false

/-- A declared key's override is spent, a tombstone is not. -/
def spend (entries : Std.ExtTreeMap String (Option String)) (key : String) :
    Std.ExtTreeMap String (Option String) :=
  if entries[key]? = some none then entries else entries.erase key

/-- An override with nothing left in it is dropped. -/
def ofEntries (entries : Std.ExtTreeMap String (Option String)) : Option (EnvOverride V) :=
  if entries.isEmpty then none else some (.object entries)

end EnvOverride

/-- `establish_env`. -/
def establishEnv (incoming : DeclaredApp V) (next : AppOverrides V) : AppOverrides V :=
  { next with
    env := match next.env with
      | some (.object entries) =>
        EnvOverride.ofEntries ((listing incoming.declaredEnv).foldl EnvOverride.spend entries)
      | env => env
    declaredEnv := next.declaredEnv ∪ incoming.declaredEnv }

/-- A key the file established on an earlier load, or the operator has
set. -/
def AppOverrides.established (overrides : AppOverrides V) (key : String) : Bool :=
  decide (key ∈ overrides.declared) || overrides.fields.contains key

/-- The keys a load takes the file's value for. -/
def inScope (incoming : DeclaredApp V) (overrides : AppOverrides V) (reset : ResetDepth)
    (key : String) : Bool :=
  match reset with
  | .policy | .all => true
  | .file => decide (key ∈ incoming.declared)
  | .none | .env =>
    key != "instances" && decide (key ∈ incoming.declared) && !overrides.established key

/-- What a merge has made of the fields and of the record. -/
abbrev Merging (V : Type) := Std.ExtTreeMap String V × AppOverrides V

/-- A key in scope takes the file's value and gives its override up.
`declared` grows only where the file spoke. -/
def takeKey (incoming : DeclaredApp V) (r : Merging V) (key : String) : Merging V :=
  (match incoming.config.fields[key]? with
    | some value => r.1.insert key value
    | none => r.1,
   { r.2 with
      fields := r.2.fields.erase key
      template := r.2.template.erase key
      declared := if key ∈ incoming.declared then insert key r.2.declared else r.2.declared })

/-- A key out of scope is left alone. The file's value is what a reset of an
override returns to, so it is kept current. -/
def keepKey (incoming : DeclaredApp V) (r : Merging V) (key : String) : Merging V :=
  match incoming.config.fields[key]? with
  | some value =>
    if r.2.fields.contains key ∧ key ∈ incoming.declared then
      (r.1, { r.2 with template := r.2.template.insert key value })
    else r
  | none => r

/-- One key of the merge. -/
def mergeKey (incoming : DeclaredApp V) (scope : String → Bool) (r : Merging V) (key : String) :
    Merging V :=
  if scope key then takeKey incoming r key else keepKey incoming r key

/-- One declared `env` key of a plain load. -/
def appendEnv (incoming : DeclaredApp V) (overrides : AppOverrides V)
    (env : Std.ExtTreeMap String String) (key : String) : Std.ExtTreeMap String String :=
  if key ∈ overrides.declaredEnv ∨ EnvOverride.speaksFor overrides.env key = true then env
  else
    match incoming.config.env[key]? with
    | some value => env.insert key value
    | none => env

/-- `merge_declared`, over the field names `AppConfig::default` serializes
under. -/
def mergeDeclared (names : List String) (stored : AppConfig V) (incoming : DeclaredApp V)
    (overrides : AppOverrides V) (reset : ResetDepth) : AppConfig V × AppOverrides V :=
  let (fields, next) :=
    names.foldl (mergeKey incoming (inScope incoming overrides reset)) (stored.fields, overrides)
  match reset with
  | .policy | .file => (⟨fields, stored.env⟩, next)
  | .all | .env =>
    (⟨fields, incoming.config.env⟩, establishEnv incoming { next with env := none })
  | .none =>
    (⟨fields, (listing incoming.declaredEnv).foldl (appendEnv incoming overrides) stored.env⟩,
      establishEnv incoming next)

/-- `drifted_fields`: the fields another config holds otherwise, in order. -/
def AppConfig.driftedFields [DecidableEq V] (mine theirs : AppConfig V) : List String :=
  let fields := (mine.fields.toList.filter fun entry => theirs.fields[entry.1]? != some entry.2).map
    Prod.fst
  if mine.env.toList = theirs.env.toList then fields
  else ("env" :: fields).insertionSort (· ≤ ·)

end Config

end Shep
