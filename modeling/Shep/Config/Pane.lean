import Shep.Config.Model

/-!
# Config — one app, edited and loaded

`supervisor/actor_pane.rs`, `supervisor/actor_env_copy.rs` and the plain
load of `supervisor/actor_config.rs` (`apply_one` with no reset depth), on
the instances of one app and its override record. Which instance speaks for
the app is the flock's business (`speaker_rank` reads its reload state and
number), and nothing here writes what it depends on.

Reading an object back as a config and normalizing the config are one
function of the host: either is refused, or every field comes back under
its canonical value. What a pane is warned about, the workers and kernel
limits a live field moves, and the answer that a limit was not written are
left out.
-/

namespace Shep

namespace Config

variable {V : Type}

/-! ## Where a field reaches -/

/-- `ApplyGroup`. -/
inductive ApplyGroup where
  /-- Read fresh at each decision. -/
  | live
  /-- Read when a process spawns. -/
  | nextSpawn
  /-- Held by the running child. -/
  | needsRespawn
  /-- Identity or flock shape. -/
  | structural
  deriving DecidableEq, Repr

/-- `FieldRow`. -/
structure FieldRow where
  field : String
  group : ApplyGroup
  reachesRunning : Bool

/-- `FIELDS`. -/
def fieldRows : List FieldRow :=
  [⟨"autorestart", .live, true⟩, ⟨"max_restarts", .live, true⟩, ⟨"min_uptime", .live, true⟩,
    ⟨"restart_delay", .live, true⟩, ⟨"exp_backoff_restart_delay", .live, true⟩,
    ⟨"stop_exit_codes", .live, true⟩, ⟨"kill_timeout", .live, true⟩,
    ⟨"graceful_timeout", .live, true⟩, ⟨"max_memory", .live, true⟩,
    ⟨"memory_enforce", .live, true⟩, ⟨"max_cpu_cores", .live, true⟩, ⟨"max_tasks", .live, true⟩,
    ⟨"watch", .live, true⟩, ⟨"ignore_watch", .live, true⟩, ⟨"watch_delay", .live, true⟩,
    ⟨"watch_options", .live, true⟩, ⟨"cron_restart", .live, true⟩,
    ⟨"cron_timezone", .live, true⟩, ⟨"liveness_probe", .live, true⟩, ⟨"fold", .live, true⟩,
    ⟨"reuse_port", .live, true⟩, ⟨"listen", .needsRespawn, false⟩, ⟨"level_rules", .live, true⟩,
    ⟨"dogs", .live, true⟩, ⟨"action_timeout", .live, true⟩, ⟨"kill_signal", .nextSpawn, false⟩,
    ⟨"listen_timeout", .nextSpawn, false⟩, ⟨"readiness_probe", .nextSpawn, false⟩,
    ⟨"autostart", .nextSpawn, true⟩, ⟨"depends_on", .nextSpawn, true⟩,
    ⟨"script", .needsRespawn, false⟩, ⟨"args", .needsRespawn, false⟩,
    ⟨"cwd", .needsRespawn, false⟩, ⟨"interpreter", .needsRespawn, false⟩,
    ⟨"env", .needsRespawn, false⟩, ⟨"environment", .needsRespawn, false⟩,
    ⟨"user", .needsRespawn, false⟩, ⟨"group", .needsRespawn, false⟩,
    ⟨"out_file", .needsRespawn, false⟩, ⟨"err_file", .needsRespawn, false⟩,
    ⟨"merge_logs", .needsRespawn, false⟩, ⟨"log_timestamps", .needsRespawn, false⟩,
    ⟨"channel", .needsRespawn, false⟩, ⟨"stdin", .needsRespawn, false⟩,
    ⟨"pty", .needsRespawn, false⟩, ⟨"wait_ready", .needsRespawn, false⟩,
    ⟨"shutdown_with_message", .needsRespawn, false⟩, ⟨"name", .structural, false⟩,
    ⟨"instances", .structural, false⟩]

/-- `apply_group`. A field the table has not been taught is held by the
child. -/
def applyGroup (field : String) : ApplyGroup :=
  ((fieldRows.find? fun row => row.field == field).map FieldRow.group).getD .needsRespawn

/-- `reaches_running`. -/
def reachesRunning (field : String) : Bool :=
  (fieldRows.find? fun row => row.field == field).any FieldRow.reachesRunning

/-! ## The host -/

/-- Every field under another value. -/
def AppConfig.rewrite (f : String → V → V) (config : AppConfig V) : AppConfig V :=
  { config with fields := config.fields.map f }

/-- What the shepherd does not decide itself. `from_value` and `normalize`
refuse an object, or give each field its canonical value: what it reads back
as, a leading `~/` of a path expanded, a dependency listed once. Neither
finds anything to do the second time. -/
structure Host (V : Type) where
  /-- `AppConfig::default`. -/
  defaults : AppConfig V
  /-- Why `from_value` or `normalize` refuses. -/
  refusal : AppConfig V → Option String
  /-- A field's canonical value. -/
  canonical : String → V → V
  /-- An instance count, as a message words it. -/
  worded : V → String
  /-- `shown_env_value`. -/
  shown : String → String
  /-- `seal`. -/
  sealed : Option String → Option String → ℕ
  canonical_canonical : ∀ field value,
    canonical field (canonical field value) = canonical field value
  refusal_rewrite : ∀ config, refusal config = none → refusal (config.rewrite canonical) = none

/-- `ResolvedApp`: a config that has been normalized. -/
structure ResolvedApp (h : Host V) where
  config : AppConfig V
  accepted : h.refusal config = none
  canonical : config.rewrite h.canonical = config

namespace Host

theorem rewrite_rewrite (h : Host V) (config : AppConfig V) :
    (config.rewrite h.canonical).rewrite h.canonical = config.rewrite h.canonical := by
  have hfields : (config.fields.map h.canonical).map h.canonical = config.fields.map h.canonical := by
    apply Std.ExtTreeMap.ext_getElem?
    intro field
    rw [Std.ExtTreeMap.getElem?_map, Std.ExtTreeMap.getElem?_map]
    cases config.fields[field]? with
    | none => rfl
    | some value => simp [h.canonical_canonical]
  simp only [AppConfig.rewrite, hfields]

/-- `from_value`, then `normalize`. -/
def normalize (h : Host V) (config : AppConfig V) : Except String (ResolvedApp h) :=
  match haccepted : h.refusal config with
  | none => .ok ⟨config.rewrite h.canonical, h.refusal_rewrite config haccepted,
      h.rewrite_rewrite config⟩
  | some message => .error message

/-- The field names `AppConfig::default` serializes under. -/
def names (h : Host V) : List String :=
  h.defaults.fields.toList.map Prod.fst

end Host

/-! ## An app -/

section

variable {h : Host V}

/-- What a registered instance holds of its app's config. -/
structure Slot (h : Host V) where
  /-- What its child was spawned from. -/
  spec : ResolvedApp h
  /-- What its next child is to be spawned from. -/
  pending : Option (ResolvedApp h) := none
  pendingReidentifies : Bool := false
  overridden : List String := []
  dog : Bool := false

/-- `intended_spec`. -/
def Slot.intended (slot : Slot h) : ResolvedApp h :=
  slot.pending.getD slot.spec

/-- An app: its registered instances by id, the one that speaks for it, and
its record in the override store, empty where the store has none. -/
structure App (h : Host V) where
  name : String
  slots : Std.ExtTreeMap ℕ (Slot h)
  /-- `representative_id`. -/
  speaker : Option ℕ
  record : AppOverrides V := {}

/-- The slot that stands in for the app. -/
def App.voice (app : App h) : Option (Slot h) :=
  app.speaker.bind fun id => app.slots[id]?

/-- Why a command is refused: `SupervisorError`. -/
inductive Refusal where
  | isADog (message : String)
  | invalidField (message : String)
  | invalidEnv (message : String)
  | envChanged (keys : String)
  | noSuchSheep (name : String)
  | overrides (message : String)
  deriving DecidableEq, Repr

/-- What the override store's file answers a command: an error, if it cannot
be read or written. -/
structure Disk where
  unreadable : Option String := none
  unwritable : Option String := none

/-- `dog_config_refusal`. -/
def dogConfigRefusal (name : String) : String :=
  name ++ " is a dog, and a dog's config comes from `shep adopt` rather than from a Flockfile"

/-- `ensure_not_dog`. -/
def ensureNotDog (name : String) (slot : Slot h) : Except Refusal Unit :=
  if slot.dog then .error (.isADog (dogConfigRefusal name)) else .ok ()

/-- The record as a command reads it. -/
def App.readOverride (disk : Disk) (app : App h) : Except Refusal (AppOverrides V) :=
  match disk.unreadable with
  | some message => .error (.overrides message)
  | none => .ok app.record

/-- `mutate_override`: the record to be written back. -/
def App.mutateOverride (disk : Disk)
    (f : AppOverrides V → Except Refusal (AppOverrides V)) (app : App h) :
    Except Refusal (AppOverrides V) := do
  let record ← app.readOverride disk
  let record ← f record
  match disk.unwritable with
  | some message => .error (.overrides message)
  | none => .ok record

/-- The field names a record holds, in order. -/
def AppOverrides.names (record : AppOverrides V) : List String :=
  let fields := record.fields.toList.map Prod.fst
  if record.env.isSome then ("env" :: fields).insertionSort (· ≤ ·) else fields

/-- `park_slots`. -/
def App.parkSlots (parked : ResolvedApp h) (record : AppOverrides V) (app : App h) : App h :=
  { app with
    slots := app.slots.map fun _ slot =>
      { slot with pending := some parked, overridden := record.names }
    record }

/-- Whether a parked config is run under another identity. -/
def reidentifies [DecidableEq V] (spec parked : ResolvedApp h) : Bool :=
  spec.config.fields["user"]? != parked.config.fields["user"]? ||
    spec.config.fields["group"]? != parked.config.fields["group"]?

/-- What a field edit or a load writes on one instance. -/
def Slot.write [DecidableEq V] (nextSpec parked : Option (ResolvedApp h))
    (overridden : List String) (slot : Slot h) : Slot h :=
  { slot with
    -- against the spec it had before this write
    pendingReidentifies := slot.pendingReidentifies || parked.any (reidentifies slot.spec)
    spec := nextSpec.getD slot.spec
    pending := parked.or slot.pending
    overridden }

/-- What a field edit or a load writes on every instance. -/
def App.write [DecidableEq V] (nextSpec parked : Option (ResolvedApp h))
    (record : AppOverrides V) (app : App h) : App h :=
  { app with
    slots := app.slots.map fun _ slot => slot.write nextSpec parked record.names
    record }

/-- `promote_pending`, of one instance. -/
def App.promotePending (id : ℕ) (app : App h) : App h :=
  match app.slots[id]? with
  | some slot =>
    match slot.pending with
    | some pending =>
      { app with
        slots := app.slots.insert id
          { slot with spec := pending, pending := none, pendingReidentifies := false } }
    | none => app
  | none => app

/-- Whether some instance has a config parked. -/
def App.parks (app : App h) : Bool :=
  app.slots.toList.any fun entry => entry.2.pending.isSome

/-! ## Fields -/

/-- A config with one field under another value. -/
def AppConfig.set (config : AppConfig V) (field : String) (value : V) : AppConfig V :=
  { config with fields := config.fields.insert field value }

/-- One field carried over from another config. -/
def AppConfig.carry (source : AppConfig V) (config : AppConfig V) (field : String) : AppConfig V :=
  match source.fields[field]? with
  | some value => config.set field value
  | none => config

/-- `reached_spec`, at the count the running config has. -/
def reachedSpec (running merged : ResolvedApp h) (reaching : List String) :
    Except String (ResolvedApp h) :=
  h.normalize
    (running.config.carry (reaching.foldl merged.config.carry running.config) "instances")

/-- `FieldSource`. -/
inductive FieldSource (V : Type) where
  | set (value : V)
  | reset

/-- `FieldSet`. -/
structure FieldSet (h : Host V) where
  app : ResolvedApp h
  value : V
  pending : Bool

/-- `template_value`. -/
def templateValue (disk : Disk) (key : String) (app : App h) : Except Refusal V := do
  let record ← app.readOverride disk
  if record.fields.contains key then
    match record.template[key]? with
    | some template => pure template
    | none =>
      match h.defaults.fields[key]? with
      | some value => pure value
      | none => .error (.invalidField ("no config field named " ++ key))
  else
    .error (.invalidField
      (key ++ " has no override to drop: it already holds the Flockfile's value"))

/-- The value an edit applies. -/
def sourceValue (disk : Disk) (key : String) (app : App h) : FieldSource V → Except Refusal V
  | .set value => .ok value
  | .reset => templateValue disk key app

/-- What a field edit leaves on record. -/
def recordField (key : String) (source : FieldSource V) (before : V) (record : AppOverrides V) :
    AppOverrides V :=
  match source with
  | .set value =>
    { record with
      -- an older value is remembered while the operator holds the key
      template := if record.fields.contains key then record.template
        else record.template.insert key before
      fields := record.fields.insert key value }
  | .reset =>
    { record with fields := record.fields.erase key, template := record.template.erase key }

/-- `apply_sheep_field`. -/
def applySheepField [DecidableEq V] (disk : Disk) (key : String) (source : FieldSource V)
    (app : App h) : Except Refusal (Option (App h × FieldSet h)) :=
  match app.voice with
  | none => .ok none
  | some slot => do
    ensureNotDog app.name slot
    let value ← sourceValue disk key app source
    match slot.intended.config.fields[key]? with
    | none => .error (.invalidField ("no config field named " ++ key))
    | some before =>
      match h.normalize (slot.intended.config.set key value) with
      | .error message => .error (.invalidField (key ++ ": " ++ message))
      | .ok merged =>
        let reaches := applyGroup key == .live || applyGroup key == .nextSpawn
        let nextSpec := (reachedSpec slot.spec merged (if reaches then [key] else [])).toOption
        let record ← app.mutateOverride disk fun record =>
          .ok (recordField key source before record)
        let parked := if nextSpec.isNone || !reaches || app.parks then some merged else none
        .ok (some (app.write nextSpec parked record,
          { app := parked.getD (nextSpec.getD merged)
            value
            pending := nextSpec.isNone || !reachesRunning key }))

/-- `refuse_unowned_key`. -/
def refuseUnownedKey (key : String) : Except Refusal Unit :=
  if key = "env" then
    .error (.invalidField "env is set one key at a time; use `SetSheepEnv`")
  else if key = "dogs" then
    .error (.invalidField "dogs is set one dog's table at a time; use `SetSheepDogSettings`")
  else if applyGroup key = .structural then
    .error (.invalidField (key ++ " is not a config write; `shep stock` moves an instance " ++
      "count, and a name change is a different sheep"))
  else .ok ()

/-- `handle_set_sheep_field`. -/
def handleSetSheepField [DecidableEq V] (disk : Disk) (key : String) (value : V) (app : App h) :
    Except Refusal (Option (App h × FieldSet h)) := do
  refuseUnownedKey key
  applySheepField disk key (.set value) app

/-- `handle_reset_sheep_field`. -/
def handleResetSheepField [DecidableEq V] (disk : Disk) (key : String) (app : App h) :
    Except Refusal (Option (App h × FieldSet h)) := do
  refuseUnownedKey key
  applySheepField disk key .reset app

/-! ## `env` -/

/-- `env_override_map`: the entries of an `env` override, none where there
is no override. -/
def envOverrideMap (name : String) (record : AppOverrides V) :
    Except Refusal (Std.ExtTreeMap String (Option String)) :=
  match record.env with
  | none => .ok ∅
  | some (.object entries) => .ok entries
  | some (.other _) => .error (.overrides (name ++ "'s stored `env` override is not an object"))

/-- What `record_env_edit` makes of the entries. A tombstone stays where it
is, and is left where the removal is the only record of it. -/
def recordEntry (key : String) (value : Option String) (wasInConfig fileDeclares : Bool)
    (entries : Std.ExtTreeMap String (Option String)) : Std.ExtTreeMap String (Option String) :=
  match value with
  | some value => entries.insert key (some value)
  | none =>
    if wasInConfig && (!entries.contains key || fileDeclares) then entries.insert key none
    else if entries[key]? = some none then entries
    else entries.erase key

/-- `record_env_edit`. -/
def recordEnvEdit (name key : String) (value : Option String) (wasInConfig : Bool)
    (record : AppOverrides V) : Except Refusal (AppOverrides V) := do
  let entries ← envOverrideMap name record
  let fileDeclares := decide (key ∈ record.declaredEnv)
  pure { record with
    env := EnvOverride.ofEntries (recordEntry key value wasInConfig fileDeclares entries) }

/-- An environment with one key set or removed. -/
def editEnv (env : Std.ExtTreeMap String String) (key : String) (value : Option String) :
    Std.ExtTreeMap String String :=
  match value with
  | some value => env.insert key value
  | none => env.erase key

/-- `handle_set_sheep_env`. -/
def handleSetSheepEnv (disk : Disk) (key : String) (value : Option String) (app : App h) :
    Except Refusal (Option (App h × ResolvedApp h)) :=
  match app.voice with
  | none => .ok none
  | some slot => do
    ensureNotDog app.name slot
    let intended := slot.intended.config
    match h.normalize { intended with env := editEnv intended.env key value } with
    | .error message => .error (.invalidEnv message)
    | .ok parked =>
      let record ← app.mutateOverride disk
        (recordEnvEdit app.name key value (intended.env.contains key))
      .ok (some (app.parkSlots parked record, parked))

/-- `EnvBatch`. -/
structure EnvBatch (h : Host V) where
  app : Option (ResolvedApp h)
  set : List String
  unchanged : List String
  collisions : List String

/-- The entries of a batch that its app's environment does not hold as they
are. -/
def freshEntries (env : Std.ExtTreeMap String String) (entries : Std.ExtTreeMap String String) :
    List (String × String) :=
  entries.toList.filter fun entry => env[entry.1]? != some entry.2

/-- `handle_set_sheep_env_batch`. -/
def handleSetSheepEnvBatch (disk : Disk) (entries : Std.ExtTreeMap String String)
    (force dryRun : Bool) (app : App h) : Except Refusal (Option (App h × EnvBatch h)) :=
  match app.voice with
  | none => .ok none
  | some slot => do
    ensureNotDog app.name slot
    let intended := slot.intended.config
    let fresh := freshEntries intended.env entries
    let unchanged := (entries.toList.filter fun entry => intended.env[entry.1]? == some entry.2).map
      Prod.fst
    let collisions := (fresh.filter fun entry => intended.env.contains entry.1).map Prod.fst
    if !collisions.isEmpty && !force then
      .ok (some (app, ⟨none, [], unchanged, collisions⟩))
    else
      let env := fresh.foldl (fun env entry => env.insert entry.1 entry.2) intended.env
      match h.normalize { intended with env } with
      | .error message => .error (.invalidEnv message)
      | .ok parked =>
        if dryRun || fresh.isEmpty then
          .ok (some (app, ⟨none, fresh.map Prod.fst, unchanged, collisions⟩))
        else
          let record ← app.mutateOverride disk fun record => do
            let held ← envOverrideMap app.name record
            -- no `of_entries`: a batch only ever inserts
            pure { record with
              env := some (.object
                (fresh.foldl (fun held entry => held.insert entry.1 (some entry.2)) held)) }
          .ok (some (app.parkSlots parked record,
            ⟨some parked, fresh.map Prod.fst, unchanged, collisions⟩))

/-- `EnvCopyKind`. -/
inductive EnvCopyKind where
  | added
  | changed
  | removed
  deriving DecidableEq, Repr

/-- `EnvCopyChange`. -/
structure EnvCopyChange where
  key : String
  kind : EnvCopyKind
  old : Option String
  new : Option String
  sealed : ℕ
  deriving DecidableEq

/-- One key of `diff`. -/
def diffKey (h : Host V) (before after : Std.ExtTreeMap String String) (key : String) :
    Option EnvCopyChange :=
  let change := fun kind => some
    { key, kind
      old := before[key]?.map h.shown
      new := after[key]?.map h.shown
      sealed := h.sealed before[key]? after[key]? }
  match before[key]?, after[key]? with
  | some old, some new => if old = new then none else change .changed
  | none, some _ => change .added
  | some _, none => change .removed
  | none, none => none

/-- `diff`. -/
def diff (h : Host V) (before after : Std.ExtTreeMap String String) : List EnvCopyChange :=
  (listing ((before.toList.map Prod.fst).toFinset ∪ (after.toList.map Prod.fst).toFinset)).filterMap
    (diffKey h before after)

/-- `differing_keys`. -/
def differingKeys (reviewed now : List EnvCopyChange) : String :=
  ", ".intercalate (listing
    (((reviewed.filter fun change => !now.contains change) ++
      (now.filter fun change => !reviewed.contains change)).map EnvCopyChange.key).toFinset)

/-- `EnvCopy`. -/
structure EnvCopy (h : Host V) where
  app : Option (ResolvedApp h)
  changes : List EnvCopyChange

/-- The environment a copy makes of the target's. -/
def copied (source target : Std.ExtTreeMap String String) (replace : Bool)
    (except : List String) : Std.ExtTreeMap String String :=
  let after := (source.toList.filter fun entry => !except.contains entry.1).foldl
    (fun env entry => env.insert entry.1 entry.2) target
  if replace then after.filter fun key _ => except.contains key || source.contains key else after

/-- `handle_copy_sheep_env`, from the app `source`. -/
def handleCopySheepEnv (disk : Disk) (source : App h) (replace : Bool) (except : List String)
    (dryRun : Bool) (expect : Option (List EnvCopyChange)) (app : App h) :
    Except Refusal (App h × EnvCopy h) :=
  match source.voice, app.voice with
  | none, _ => .error (.noSuchSheep source.name)
  | some _, none => .error (.noSuchSheep app.name)
  | some from', some slot => do
    ensureNotDog source.name from'
    ensureNotDog app.name slot
    let intended := slot.intended.config
    let after := copied from'.intended.config.env intended.env replace except
    let changes := diff h intended.env after
    if expect.any (· != changes) then
      .error (.envChanged (differingKeys (expect.getD []) changes))
    else if changes.isEmpty then .ok (app, ⟨none, changes⟩)
    else
      match h.normalize { intended with env := after } with
      | .error message => .error (.invalidEnv message)
      | .ok parked =>
        if dryRun then .ok (app, ⟨none, changes⟩)
        else
          let record ← app.mutateOverride disk fun record =>
            changes.foldlM (fun record change =>
              recordEnvEdit app.name change.key after[change.key]?
                (intended.env.contains change.key) record) record
          .ok (app.parkSlots parked record, ⟨some parked, changes⟩)

/-! ## A plain load -/

/-- `Applied`. -/
structure Applied (h : Host V) where
  applied : List String := []
  pending : List String := []
  refused : Option String := none
  app : Option (ResolvedApp h) := none

/-- The two fields of the next spawn's group that no spawn reads: they are in
force once stored. -/
def inForceAtOnce (field : String) : Bool :=
  field == "autostart" || field == "depends_on"

/-- A field that could not be parked was established by nobody: the record
goes back to what it said of it. -/
def restoreRecord (overrides : AppOverrides V) (next : AppOverrides V) (field : String) :
    AppOverrides V :=
  if field = "env" then
    { next with
      env := overrides.env
      declared := if field ∈ overrides.declared then next.declared else next.declared.erase field
      declaredEnv := overrides.declaredEnv }
  else
    { next with
      fields := match overrides.fields[field]? with
        | some previous => next.fields.insert field previous
        | none => next.fields.erase field
      declared := if field ∈ overrides.declared then next.declared else next.declared.erase field }

/-- What a load is answered when it touched nothing. -/
def Applied.refuse (message : String) : Applied h :=
  { refused := some message }

/-- `with_count`, at the count the running config has. -/
def withCount (running merged : ResolvedApp h) : Option (ResolvedApp h) :=
  (h.normalize (running.config.carry merged.config "instances")).toOption

/-- The notes of a plain load, over the fields it could not park. -/
def loadNotes (h : Host V) [DecidableEq V] (incoming : DeclaredApp V) (running : AppConfig V)
    (parkedFailed : Bool) (unparked : List String) : List String :=
  let worded := (running.fields["instances"]?.map h.worded).getD ""
  let wanted := (incoming.config.fields["instances"]?.map h.worded).getD ""
  let count :=
    if "instances" ∈ incoming.declared ∧
        incoming.config.fields["instances"]? ≠ running.fields["instances"]? then
      ["instances: this load never reshapes a flock; no mode scales without also " ++
        "putting back every setting the file declares, and `--reset=file` is the " ++
        "narrowest that does, taking the file's count of " ++ wanted]
    else []
  let what :=
    if unparked.isEmpty then
      "an earlier load's parked config could not be rebuilt, so a respawn will put its values back"
    else ", ".intercalate unparked ++ " could not be parked for a next spawn"
  if parkedFailed then
    count ++ [what ++ ": the merged config does not hold at " ++ worded ++ " instance(s)"]
  else count

/-- `handle_apply_config` with no reset depth, for one app of the file. Such
a load never moves the instance count. -/
def applyPlain [DecidableEq V] (disk : Disk) (incoming : DeclaredApp V) (app : App h) :
    App h × Applied h :=
  match disk.unreadable, app.voice with
  | some message, _ => (app, .refuse ("overrides could not be read: " ++ message))
  | none, none => (app, .refuse (app.name ++
      " is not registered; `shep start` it before a config can be applied to it"))
  | none, some slot =>
    if slot.dog then (app, .refuse (dogConfigRefusal app.name))
    else
      let (merged, next) :=
        mergeDeclared h.names slot.intended.config incoming app.record .none
      match h.normalize merged with
      | .error message => (app, .refuse message)
      | .ok merged =>
        let drifted := slot.intended.config.driftedFields merged.config
        let live := drifted.filter fun field => applyGroup field == .live
        let nextSpawn := drifted.filter fun field => applyGroup field == .nextSpawn
        let respawn := drifted.filter fun field => applyGroup field == .needsRespawn
        let nextSpec := (reachedSpec slot.spec merged (live ++ nextSpawn)).toOption
        let parkedWanted := nextSpec.isNone || !respawn.isEmpty || app.parks
        let parked := if parkedWanted then withCount slot.spec merged else none
        let parkedFailed := parkedWanted && parked.isNone
        let inForce := nextSpawn.filter inForceAtOnce
        let later := nextSpawn.filter fun field => !inForceAtOnce field
        let unparked :=
          if !parkedFailed then []
          else if nextSpec.isNone then live ++ inForce ++ later ++ respawn
          else respawn
        let next := unparked.foldl (restoreRecord app.record) next
        let notes := loadNotes h incoming slot.spec.config parkedFailed unparked ++
          (disk.unwritable.map fun message => "overrides could not be written: " ++ message).toList
        -- the flock is changed by now, whether or not the store takes the record
        ({ app.write nextSpec parked next with
            record := if disk.unwritable.isSome then app.record else next },
          { applied := (if nextSpec.isNone then [] else live ++ inForce).insertionSort (· ≤ ·)
            pending := (if nextSpec.isNone then
                if parkedFailed then [] else live ++ inForce ++ later ++ respawn
              else if parkedFailed then later
              else later ++ respawn).insertionSort (· ≤ ·)
            refused := if notes.isEmpty then none else some ("; ".intercalate notes)
            app := withCount slot.spec merged })

end

end Config

end Shep
