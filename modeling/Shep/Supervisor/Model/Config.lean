import Shep.Supervisor.Model.Commands

/-!
# Supervisor — config edits

`actor_pane.rs`, `actor_env_copy.rs`, `actor_dog_tables.rs` and
`actor_config.rs`: an operator's edit of one sheep, and a Flockfile loaded
onto a running flock. An edit parks a config for the next spawn of every
instance of its app, or moves the stored spec; only a load that changes
the instance count reaches a process, through `handle_scale`.
-/

namespace Shep

namespace Supervisor

/-- The message a refusal reaches an operator as. -/
def SupervisorError.text : SupervisorError → String
  | .notFound => "selector matched no registered sheep"
  | .spawnFailed msg => "spawn failed: " ++ msg
  | .cannotStart msg => "start refused: " ++ msg
  | .reloadInFlight name => name ++ " is already being reloaded"
  | .invalidScale msg => "cannot scale: " ++ msg
  | .isADog msg => "refused: " ++ msg
  | .invalidEnv msg => "cannot set that env key: " ++ msg
  | .invalidField msg => "cannot set that field: " ++ msg
  | .overrides msg => "overrides store unusable: " ++ msg
  | .disabled name => name ++ " is disabled; `shep enable " ++ name ++ "` clears that and starts it"
  | .noSuchSheep name => "no sheep named " ++ name
  | .envChanged keys =>
    "the env changed since the copy was reviewed (" ++ keys ++ "); nothing was written"
  | .engineStopped => "supervisor engine has shut down"

/-- `dog_config_refusal`. -/
def dogConfigRefusal (name : String) : String :=
  name ++ " is a dog, and a dog's config comes from `shep adopt` rather than from a Flockfile"

/-- Sets a key of a key/value map. -/
def mapInsert (m : List (String × String)) (key value : String) : List (String × String) :=
  (m.filter fun e => e.1 != key) ++ [(key, value)]

/-- Removes a key of a key/value map. -/
def mapRemove (m : List (String × String)) (key : String) : List (String × String) :=
  m.filter fun e => e.1 != key

/-- Sets a key, or removes it with `none`. -/
def mapEdit (m : List (String × String)) (key : String) : Option String → List (String × String)
  | some value => mapInsert m key value
  | none => mapRemove m key

/-- One key an env copy touches: its value before and after. -/
structure EnvCopyChange where
  key : String
  old : Option String
  new : Option String
  deriving Repr, DecidableEq

/-- Every key that differs between two envs, in key order. -/
def envDiff (before after : List (String × String)) : List EnvCopyChange :=
  (((before ++ after).map Prod.fst).dedup.insertionSort (· ≤ ·)).filterMap fun key =>
    let change : EnvCopyChange := ⟨key, before.lookup key, after.lookup key⟩
    if change.old = change.new then none else some change

/-- The keys whose change is in one list and not in the other, in key
order. -/
def differingKeys (reviewed now : List EnvCopyChange) : String :=
  ", ".intercalate ((((reviewed.filter fun c => !now.contains c) ++
    (now.filter fun c => !reviewed.contains c)).map EnvCopyChange.key).dedup.insertionSort (· ≤ ·))

/-- Where `apply_sheep_field` gets its value. -/
inductive FieldSource where
  | set (value : String)
  | reset
  deriving Repr, DecidableEq

/-- What one app's load came to: why some of it did not land, the config
to record, and whether its override record moves. -/
structure Applied where
  name : String
  refused : Option String
  app : Option AppConfig
  recorded : Bool := false
  deriving Repr, DecidableEq

namespace SheepSlot

/-- `park_slots`, on one slot. -/
def parked (app : AppConfig) (overridden : List String) (slot : SheepSlot) : SheepSlot :=
  { slot with entry := { slot.entry with pending := some app, overridden := overridden } }

/-- A moved spec and a parked config, on one slot. The identity is
compared against this slot's own spec, and a change nobody promoted is not
forgotten. -/
def reconfigured (nextSpec parked : Option AppConfig) (overridden : List String)
    (slot : SheepSlot) : SheepSlot :=
  { slot with
    entry := { slot.entry with
      spec := nextSpec.getD slot.entry.spec
      pending := parked.or slot.entry.pending
      pendingReidentifies := slot.entry.pendingReidentifies ||
        parked.any fun p => p.user != slot.entry.spec.user || p.group != slot.entry.spec.group
      overridden := overridden } }

end SheepSlot

namespace Actor

/-- Writes every slot of an app. -/
def mapApp (name : String) (f : SheepSlot → SheepSlot) (a : Actor) : Actor :=
  a.mapSlots fun slot => if slot.name == name then f slot else slot

/-- `speaker_rank` order: a non-drainee, then the lowest instance, then
the lowest id. -/
def speaksBefore (x y : ℕ × SheepSlot) : Bool :=
  let draining := fun (slot : SheepSlot) =>
    match slot.entry.reload with
    | .drainee _ => true
    | _ => false
  let dx := draining x.2
  let dy := draining y.2
  (!dx && dy) || (dx == dy && (x.2.entry.inst < y.2.entry.inst ||
    (x.2.entry.inst == y.2.entry.inst && x.1 ≤ y.1)))

/-- `representative_id`, with its slot. -/
def representative (name : String) (a : Actor) : Option (ℕ × SheepSlot) :=
  ((a.sheep.toList.filter fun entry => entry.2.name == name).insertionSort
    fun x y => speaksBefore x y).head?

/-- The slot a pane's write speaks to: no such name, or a dog's, ends it. -/
def paneTarget (name : String) (a : Actor) : Except SupervisorError (Option SheepSlot) :=
  match a.representative name with
  | none => .ok none
  | some (_, slot) =>
    if slot.entry.dog.isSome then .error (.isADog (dogConfigRefusal name)) else .ok (some slot)

/-- `normalize`, `mutate_override`, `park_slots`: validate, then write the
store, then park. -/
def parkEdited (w : World) (name : String) (edited : AppConfig) (a : Actor) :
    Except SupervisorError (Option AppConfig) × Actor :=
  match w.normalize edited with
  | .error err => (.error (.invalidEnv err), a)
  | .ok parked =>
    match w.mutateOverride name with
    | .error err => (.error err, a)
    | .ok overridden => (.ok (some parked), a.mapApp name (SheepSlot.parked parked overridden))

/-- `handle_set_sheep_env`. -/
def handleSetSheepEnv (w : World) (name key : String) (value : Option String) (a : Actor) :
    Except SupervisorError (Option AppConfig) × Actor :=
  match a.paneTarget name with
  | .error err => (.error err, a)
  | .ok none => (.ok none, a)
  | .ok (some slot) =>
    let intended := slot.intendedSpec
    a.parkEdited w name { intended with env := mapEdit intended.env key value }

/-- `handle_set_sheep_env_batch`: one collision refuses an unforced batch,
and a dry run stops after the validation. -/
def handleSetSheepEnvBatch (w : World) (name : String) (entries : List (String × String))
    (force dryRun : Bool) (a : Actor) : Except SupervisorError (Option AppConfig) × Actor :=
  match a.paneTarget name with
  | .error err => (.error err, a)
  | .ok none => (.ok none, a)
  | .ok (some slot) =>
    let intended := slot.intendedSpec
    let collides := entries.any fun e => (intended.env.lookup e.1).any (· != e.2)
    let set := entries.filter fun e => intended.env.lookup e.1 != some e.2
    let edited := { intended with env := set.foldl (fun env e => mapInsert env e.1 e.2) intended.env }
    if collides && !force then (.ok none, a)
    else if dryRun || set.isEmpty then
      match w.normalize edited with
      | .error err => (.error (.invalidEnv err), a)
      | .ok _ => (.ok none, a)
    else a.parkEdited w name edited

/-- `handle_copy_sheep_env`. -/
def handleCopySheepEnv (w : World) (source target : String) (replace : Bool) (keep : List String)
    (dryRun : Bool) (reviewed : Option (List EnvCopyChange)) (a : Actor) :
    Except SupervisorError (Option AppConfig) × Actor :=
  match a.representative source, a.representative target with
  | none, _ => (.error (.noSuchSheep source), a)
  | _, none => (.error (.noSuchSheep target), a)
  | some (_, giver), some (_, taker) =>
    if giver.entry.dog.isSome then (.error (.isADog (dogConfigRefusal source)), a)
    else if taker.entry.dog.isSome then (.error (.isADog (dogConfigRefusal target)), a)
    else
      let given := giver.intendedSpec.env
      let intended := taker.intendedSpec
      let merged := (given.filter fun e => !keep.contains e.1).foldl
        (fun env e => mapInsert env e.1 e.2) intended.env
      let after :=
        if replace then merged.filter fun e => keep.contains e.1 || (given.lookup e.1).isSome
        else merged
      let changes := envDiff intended.env after
      match reviewed.filter fun list => list ≠ changes with
      | some list => (.error (.envChanged (differingKeys list changes)), a)
      | none =>
        if changes.isEmpty then (.ok none, a)
        else if dryRun then
          match w.normalize { intended with env := after } with
          | .error err => (.error (.invalidEnv err), a)
          | .ok _ => (.ok none, a)
        else a.parkEdited w target { intended with env := after }

/-- `apply_sheep_field`, from the edit its caller makes to the intended
config: validate, then write the store, then move the spec or park. -/
def applySheepField (w : World) (name key : String)
    (edit : AppConfig → Except SupervisorError AppConfig) (a : Actor) :
    Except SupervisorError (Option AppConfig) × Actor :=
  match a.paneTarget name with
  | .error err => (.error err, a)
  | .ok none => (.ok none, a)
  | .ok (some slot) =>
    match edit slot.intendedSpec with
    | .error err => (.error err, a)
    | .ok edited =>
      match w.normalize edited with
      | .error err => (.error (.invalidField (key ++ ": " ++ err)), a)
      | .ok merged =>
        let running := slot.entry.spec
        let nextSpec := (w.reachedSpec running slot.intendedSpec merged running.instances).toOption
        match w.mutateOverride name with
        | .error err => (.error err, a)
        | .ok overridden =>
          let parks := nextSpec.isNone || !w.reaches key ||
            a.sheep.toList.any fun e => e.2.name == name && e.2.entry.pending.isSome
          let parked := if parks then some merged else none
          (.ok (some (parked.getD (nextSpec.getD merged))),
            a.mapApp name (SheepSlot.reconfigured nextSpec parked overridden))

/-- The value `apply_sheep_field` writes: the operator's, or the one a
reset puts back. -/
def fieldValue (w : World) (name key : String) : FieldSource → Except SupervisorError String
  | .set value => .ok value
  | .reset => w.templateValue name key

/-- The edit of one field. -/
def fieldEdit (w : World) (name key : String) (source : FieldSource) (intended : AppConfig) :
    Except SupervisorError AppConfig :=
  match fieldValue w name key source with
  | .error err => .error err
  | .ok value =>
    match w.editField intended key value with
    | .error err => .error (.invalidField err)
    | .ok edited => .ok edited

/-- `handle_set_sheep_field` and `handle_reset_sheep_field`: the keys
another request owns are refused first. -/
def handleSheepField (w : World) (name key : String) (source : FieldSource) (a : Actor) :
    Except SupervisorError (Option AppConfig) × Actor :=
  match w.unowned key with
  | some refusal => (.error (.invalidField refusal), a)
  | none => a.applySheepField w name key (fieldEdit w name key source)

/-- `handle_set_sheep_dog_settings`: one dog's table, written as the whole
`dogs` field. -/
def handleSetSheepDogSettings (w : World) (name dog : String) (table : Option String)
    (a : Actor) : Except SupervisorError (Option AppConfig) × Actor :=
  a.applySheepField w name "dogs" fun intended =>
    .ok { intended with dogs := mapEdit intended.dogs dog table }

/-! ## Applying a Flockfile -/

/-- How `apply_one` routes a changed instance count: the count the load
leaves, what it could not do, or the refusal that ends it. -/
def routeCount (w : World) (name : String) (running intended merged : AppConfig) (a : Actor) :
    Except String (ℕ × Option String) × Actor :=
  if intended.instances = merged.instances then (.ok (running.instances, none), a)
  else if a.shuttingDown then
    (.ok (running.instances,
      some "instances: the daemon is shutting down and cannot reshape a flock"), a)
  else
    match a.handleScale w name merged.instances with
    | (.ok scaled, a) =>
      (.ok (scaled.achieved, scaled.shortfall.map fun message => "instances: " ++ message), a)
    | (.error err, a) => (.error err.text, a)

/-- The note a load that never reshapes a flock leaves about a count the
file declares. -/
def countNote (incoming : DeclaredApp) (reset : ResetDepth) (running : AppConfig) :
    Option String :=
  if (reset = .none ∨ reset = .env) ∧ incoming.declared.contains "instances" = true ∧
      incoming.config.instances ≠ running.instances then
    some ("instances: this load never reshapes a flock; no mode scales without also putting " ++
      "back every setting the file declares, and `--reset=file` is the narrowest that does, " ++
      "taking the file's count of " ++ toString incoming.config.instances)
  else none

/-- `apply_one`. -/
def applyOne (w : World) (reset : ResetDepth) (incoming : DeclaredApp) (a : Actor) :
    Applied × Actor :=
  let name := incoming.config.name
  let refuse := fun (message : String) => ({ name := name, refused := some message, app := none } : Applied)
  match a.representative name with
  | none =>
    (refuse (name ++ " is not registered; `shep start` it before a config can be applied to it"), a)
  | some (_, slot) =>
    if slot.entry.dog.isSome then (refuse (dogConfigRefusal name), a)
    else
      match w.mergeDeclared slot.intendedSpec incoming reset with
      | .error message => (refuse message, a)
      | .ok merged =>
        match a.routeCount w name slot.entry.spec slot.intendedSpec merged with
        | (.error message, a) => (refuse message, a)
        | (.ok (count, shortfall), a) =>
          let nextSpec := (w.reachedSpec slot.entry.spec slot.intendedSpec merged count).toOption
          let parks := nextSpec.isNone || w.needsRespawn slot.intendedSpec merged ||
            a.sheep.toList.any fun e => e.2.name == name && e.2.entry.pending.isSome
          let counted := (tryWithCount w merged count).toOption
          let parked := if parks then counted else none
          let unparked := if parks && counted.isNone then
              some ("the merged config does not hold at " ++ toString count ++ " instance(s)")
            else none
          let refusals := ([countNote incoming reset slot.entry.spec, shortfall,
            unparked].filterMap id)
          ({ name := name
             refused := if refusals.isEmpty then none else some ("; ".intercalate refusals)
             app := if count = merged.instances then some merged else counted
             recorded := true },
            a.mapApp name (SheepSlot.reconfigured nextSpec parked (w.overriddenAfter name reset)))

/-- `handle_apply_config`: an unreadable store refuses the whole file, an
unwritable one is reported next to what landed. -/
def handleApplyConfig (w : World) (apps : List DeclaredApp) (reset : ResetDepth) (a : Actor) :
    List Applied × Actor :=
  match w.readOverrides with
  | .error err =>
    (apps.map fun incoming =>
      { name := incoming.config.name
        refused := some ("overrides could not be read: " ++ err)
        app := none }, a)
  | .ok () =>
    let r := apps.foldl
      (fun (r : List Applied × Actor) incoming =>
        let one := r.2.applyOne w reset incoming
        (r.1 ++ [one.1], one.2)) ([], a)
    match w.writeOverrides with
    | .ok () => r
    | .error err =>
      let note := "overrides could not be written: " ++ err
      (r.1.map fun applied =>
        if applied.recorded then
          { applied with refused := some ((applied.refused.map (· ++ "; ")).getD "" ++ note) }
        else applied, r.2)

end Actor

end Supervisor

end Shep
