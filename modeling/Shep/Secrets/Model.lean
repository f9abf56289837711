import Mathlib.Data.Finset.Basic
import Std.Data.ExtTreeMap.Lemmas
import Shep.Common.Table

/-!
# Secrets — what provider dogs have pushed

`secrets.rs`'s `ProviderSecrets`: the values in memory, the namespaces that
may reach the disk, and the cache file; and `SecretView::resolve`, which
reads them. The file is its content, none where it is missing or does not
read; writing it and reading it back is the serializer's. What becomes of a
write is the event's.
-/

namespace Shep

namespace Secrets

/-- `ALL_ENVIRONMENTS`. -/
def allEnvironments : String := "all"

/-- `PROVIDER_CACHE_VERSION`. -/
def providerCacheVersion : ℕ := 2

/-- `key -> environment -> value`. -/
abbrev NamespaceTable := Std.ExtTreeMap String (Std.ExtTreeMap String String)

/-- `namespace -> key -> environment -> value`. -/
abbrev NamespaceValues := Std.ExtTreeMap String NamespaceTable

/-- `namespace -> environments`. -/
abbrev PushedPairs := Std.ExtTreeMap String (Finset String)

/-! ## Reading -/

/-- `ProviderCache`. -/
structure ProviderCache where
  values : NamespaceValues := ∅
  pushed : PushedPairs := ∅

/-- `SecretRef`. -/
structure SecretRef where
  ns : Option String
  key : String

/-- `SecretView`. -/
structure SecretView where
  environment : String
  store : NamespaceTable
  providers : ProviderCache

/-- `Resolution`. -/
inductive Resolution where
  | found (value : String)
  | missingKey
  | missingNamespace
  deriving Repr, DecidableEq

/-- The value, where there is one. -/
def Resolution.value? : Resolution → Option String
  | .found value => some value
  | .missingKey | .missingNamespace => none

namespace SecretView

/-- `is_pushed`. -/
def isPushed (ns : String) (view : SecretView) : Bool :=
  match view.providers.pushed[ns]? with
  | some environments => view.environment ∈ environments || allEnvironments ∈ environments
  | none => false

/-- `resolve`. -/
def resolve (reference : SecretRef) (view : SecretView) : Resolution :=
  let table :=
    match reference.ns with
    | none => some view.store
    | some ns => view.providers.values[ns]?
  let byEnvironment := table.bind fun table => table[reference.key]?
  let value := byEnvironment.bind fun slots => slots[view.environment]? <|> slots[allEnvironments]?
  match value with
  | some value => .found value
  | none =>
    match reference.ns with
    | none => .missingKey
    | some ns => if view.isPushed ns then .missingKey else .missingNamespace

end SecretView

/-! ## The cache file -/

/-- `CacheFile`. -/
structure CacheFile where
  version : ℕ
  namespaces : NamespaceValues
  pushed : PushedPairs

/-- `read_cache`. -/
def readCache : Option CacheFile → ProviderCache
  | some file =>
    if file.version = providerCacheVersion then ⟨file.namespaces, file.pushed⟩ else {}
  | none => {}

/-- What comes of writing the file. -/
inductive Written where
  | written
  /-- An error before the new file was in place. -/
  | kept
  /-- The new file is in place, and flushing its directory failed. -/
  | unflushed
  deriving Repr, DecidableEq

/-- `ProviderSecrets`, with its file, and what has come of the writes it has
tried, the latest first. -/
structure ProviderSecrets where
  namespaces : NamespaceValues := ∅
  pushed : PushedPairs := ∅
  persisted : Finset String := ∅
  cache : Option CacheFile := none
  writes : List Written := []

/-- `projected`: the entries whose names are in `keys`. -/
def projected {α : Type} (keys : Finset String) (table : Std.ExtTreeMap String α) :
    Std.ExtTreeMap String α :=
  table.filter fun name _ => name ∈ keys

/-- `Pushed`. -/
structure Pushed where
  accepted : ℕ
  changed : Finset String

/-- `CacheWriteFailed`. -/
structure CacheWriteFailed where
  changed : Finset String

/-- `changed_keys`. -/
def changedKeys (table : Option NamespaceTable) (hostEnvironment environment : String)
    (entries : Std.ExtTreeMap String String) : Finset String :=
  if environment = hostEnvironment ∨ environment = allEnvironments then
    let replaced := ((table.map fun table => table.toList).getD []).filter
      fun entry => entry.2.contains environment
    let keys := replaced.map Prod.fst ++ entries.toList.map Prod.fst
    (keys.filter fun key =>
      let slots := table.bind fun table => table[key]?
      let slot : String → Option String := fun name => slots.bind fun slots => slots[name]?
      let before := slot hostEnvironment <|> slot allEnvironments
      let pushed := entries[key]?
      let after :=
        if environment = hostEnvironment then pushed <|> slot allEnvironments
        else slot hostEnvironment <|> pushed
      before ≠ after).toFinset
  else ∅

/-- What a push does to the values of its namespace. -/
def replaced (environment : String) (entries : Std.ExtTreeMap String String) (table : NamespaceTable) :
    NamespaceTable :=
  let retained := table.filterMap fun _ byEnvironment =>
    if (byEnvironment.erase environment).isEmpty then none else some (byEnvironment.erase environment)
  entries.toList.foldl
    (fun table entry => table.insert entry.1 ((table[entry.1]?.getD ∅).insert environment entry.2))
    retained

/-- A push, and what would come of writing the file. -/
structure Push where
  hostEnvironment : String
  ns : String
  environment : String
  entries : Std.ExtTreeMap String String
  persist : Bool
  outcome : Written

namespace ProviderSecrets

/-- `load`. -/
def load (cache : Option CacheFile) : ProviderSecrets where
  namespaces := (readCache cache).values
  pushed := (readCache cache).pushed
  persisted := (readCache cache).values.keys.toFinset
  cache := cache

/-- `snapshot`. -/
def snapshot (s : ProviderSecrets) : ProviderCache := ⟨s.namespaces, s.pushed⟩

/-- `persisted_view`. -/
def persistedView (s : ProviderSecrets) : CacheFile where
  version := providerCacheVersion
  namespaces := projected s.persisted s.namespaces
  pushed := projected s.persisted s.pushed

/-- `write_cache`. -/
def writeCache (outcome : Written) (s : ProviderSecrets) : ProviderSecrets :=
  { s with
    cache := if outcome = .kept then s.cache else some s.persistedView
    writes := outcome :: s.writes }

/-- The push has the file written. -/
def Rewrites (p : Push) (s : ProviderSecrets) : Prop := p.persist = true ∨ p.ns ∈ s.persisted

instance (p : Push) (s : ProviderSecrets) : Decidable (s.Rewrites p) :=
  inferInstanceAs (Decidable (_ ∨ _))

/-- What `put` does to the memory. -/
def store (p : Push) (s : ProviderSecrets) : ProviderSecrets :=
  { s with
    namespaces := s.namespaces.insert p.ns
      (replaced p.environment p.entries (s.namespaces[p.ns]?.getD ∅))
    pushed := s.pushed.insert p.ns (insert p.environment (s.pushed[p.ns]?.getD ∅))
    persisted := if p.persist then insert p.ns s.persisted else s.persisted.erase p.ns }

/-- `put`. -/
def put (p : Push) (s : ProviderSecrets) : Except CacheWriteFailed Pushed × ProviderSecrets :=
  let accepted := min p.entries.size (2 ^ 32 - 1)
  let changed := changedKeys s.namespaces[p.ns]? p.hostEnvironment p.environment p.entries
  let stored := s.store p
  if s.Rewrites p then
    (if p.outcome = .written then .ok ⟨accepted, changed⟩ else .error ⟨changed⟩,
      stored.writeCache p.outcome)
  else (.ok ⟨accepted, changed⟩, stored)

/-- One step. -/
def Step (s : ProviderSecrets) (p : Push) (s' : ProviderSecrets) : Prop := (s.put p).2 = s'

end ProviderSecrets

end Secrets

end Shep
