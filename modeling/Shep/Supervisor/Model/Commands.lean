import Shep.Supervisor.Model.Exit

/-!
# Supervisor — the commands

`actor_core.rs`'s `do_start` and `do_start_dog`, `actor_disable.rs` and
`actor_scale.rs`: what an operator can ask for beyond a stop, a restart, a
delete and a reload.
-/

namespace Shep

namespace Supervisor

/-- `BatchPolicy`. -/
inductive BatchPolicy where
  | allOrNothing
  | perApp
  deriving Repr, DecidableEq

/-- The app config of a dog, as `dog_app` builds it: one process under one
name, with the daemon's own identity. -/
structure DogApp where
  config : AppConfig
  instances_eq : config.instances = 1
  user_eq : config.user = none
  group_eq : config.group = none

namespace Actor

/-! ## Start -/

/-- `refuse_dog_names`: the first of `names` a registered dog holds. -/
def refuseDogNames (names : List String) (a : Actor) : Option String :=
  names.find? fun name =>
    a.sheep.toList.any fun entry => entry.2.entry.dog.isSome && entry.2.name == name

/-- `refuse_disabled`: the first of `names` that is disabled. -/
def refuseDisabled (names : List String) (a : Actor) : Option String :=
  names.find? a.disabled.contains

/-- What the batch check has gathered part way through the apps. -/
structure Checked where
  ready : List (AppConfig × Option Credentials)
  refusals : List String
  failures : List String
  actor : Actor

/-- One app of `do_start`'s check: an identity that does not resolve, a
reference nobody has set and a program that cannot run each refuse an
all-or-nothing batch, and only the first leaves a row behind otherwise. -/
def checkOne (w : World) (policy : BatchPolicy) (dog : Option DogSource) (c : Checked)
    (app : AppConfig) : Checked :=
  match w.resolve app with
  | .error err =>
    let text := app.name ++ ": " ++ err
    match policy with
    | .allOrNothing => { c with refusals := c.refusals ++ [text] }
    | .perApp =>
      { c with
        failures := c.failures ++ [text]
        actor := (c.actor.registerWithoutSpawning w app .errored dog (some text)).2.2 }
  | .ok credentials =>
    let unassembled :=
      match policy, w.assemble app 0 with
      | .allOrNothing, .error err => if err.isRetriable then none else some err.text
      | _, _ => none
    let impossible :=
      match policy, w.preflight app with
      | .allOrNothing, .impossible reason => some reason
      | _, _ => none
    match unassembled.or impossible with
    | some reason => { c with refusals := c.refusals ++ [app.name ++ ": " ++ reason] }
    | none => { c with ready := c.ready ++ [(app, credentials)] }

/-- The instances of one app: the first that cannot be spawned ends it. -/
def startSlots (w : World) (app : AppConfig) (credentials : Option Credentials)
    (dog : Option DogSource) (gate : List String) :
    List ℕ → Actor → List ProcessInfo × Option String × Actor
  | [], a => ([], none, a)
  | inst :: rest, a =>
    match a.spawnFresh w app inst credentials dog gate with
    | (.ok info, a) =>
      let r := startSlots w app credentials dog gate rest a
      (info :: r.1, r.2)
    | (.error message, a) => ([], some (app.name ++ ": " ++ message), a)

/-- What starting a batch came to. -/
structure Started where
  results : List ProcessInfo
  failures : List String
  refused : Option String
  actor : Actor

/-- The apps of a checked batch: a failed spawn ends an all-or-nothing
batch and costs only its own app otherwise. -/
def startApps (w : World) (policy : BatchPolicy) (dog : Option DogSource) (gate : List String) :
    List (AppConfig × Option Credentials) → Actor → Started
  | [], a => ⟨[], [], none, a⟩
  | (app, credentials) :: rest, a =>
    let existing := (a.slotsOfName app.name).map Prod.fst
    match startSlots w app credentials dog gate (instanceSlots existing app.instances) a with
    | (results, none, a) =>
      let s := startApps w policy dog gate rest a
      { s with results := results ++ s.results }
    | (results, some failure, a) =>
      match policy with
      | .allOrNothing => ⟨results, [], some failure, a⟩
      | .perApp =>
        let s := startApps w policy dog gate rest a
        { s with results := results ++ s.results, failures := failure :: s.failures }

/-- `do_start`, past the refusals a sheep's batch meets first. -/
def startChecked (w : World) (apps : List AppConfig) (dog : Option DogSource)
    (policy : BatchPolicy) (gate : List String) (a : Actor) :
    Except SupervisorError (List ProcessInfo) × Actor :=
  let c := apps.foldl (checkOne w policy dog) ⟨[], [], [], a⟩
  if !c.refusals.isEmpty then
    (.error (.cannotStart ("nothing in this batch was registered; " ++
      toString c.refusals.length ++ " of " ++ toString apps.length ++ " apps cannot start: " ++
      "; ".intercalate c.refusals)), c.actor)
  else
    let s := startApps w policy dog gate c.ready c.actor
    match s.refused with
    | some failure => (.error (.spawnFailed failure), s.actor)
    | none =>
      let failures := c.failures ++ s.failures
      if !failures.isEmpty then (.error (.spawnFailed ("; ".intercalate failures)), s.actor)
      else (.ok (sortFlock s.results), s.actor)

/-- `do_start`, for a batch of sheep. -/
def doStart (w : World) (apps : List AppConfig) (policy : BatchPolicy) (gate : List String)
    (a : Actor) : Except SupervisorError (List ProcessInfo) × Actor :=
  let names := apps.map AppConfig.name
  match a.refuseDogNames names, a.refuseDisabled names with
  | some name, _ =>
    (.error (.isADog (name ++ " is a dog, so a sheep cannot take its name; rename the sheep")), a)
  | none, some name => (.error (.disabled name), a)
  | none, none => a.startChecked w apps none policy gate

/-! ## Dogs -/

/-- `is_parked_dog`: disabled, and finished stopping. -/
def isParkedDog (slot : SheepSlot) (a : Actor) : Bool :=
  slot.entry.status == .stopped && slot.entry.dog.isSome && a.isDisabled slot.name

/-- Whether an enable may spawn this entry afresh in its own row. -/
def isResting (slot : SheepSlot) (a : Actor) : Bool :=
  isAtRest slot.entry || a.isParkedDog slot ||
    (slot.entry.dog.isSome && slot.entry.status == .errored)

/-- Turns every marker of one kind on the apps of `names` into an
operator's of another: the later word of a disable or an enable. -/
def remark (names : List String) (kind kind' : ManualKind) (a : Actor) : Actor :=
  a.mapSlots fun slot =>
    if slot.manual.any (fun m => m.kind == kind) && names.contains slot.name then
      { slot with manual := some ⟨kind', .operator⟩ }
    else slot

/-- Takes `names` off the disabled set. -/
def clearDisabled (names : List String) (a : Actor) : Actor :=
  { a with disabled := a.disabled.filter fun name => !names.contains name }

/-- `cancel_dog_disable`: an enable reaches a dog still being stopped. -/
def cancelDogDisable (name : String) (a : Actor) : Actor :=
  if a.isDisabled name then (a.clearDisabled [name]).remark [name] .stop .restart else a

/-- Records where an adopted dog's binary lives. -/
def recordBinary (name : String) (source : DogSource) (a : Actor) : Actor :=
  match source with
  | .adopted path =>
    { a with dogBinaries := (name, path) :: a.dogBinaries.filter fun dog => dog.1 != name }
  | .builtIn => a

/-- The spawn of `do_start_dog`: a resting entry is dropped and the spawn
takes its id off the swapped counter. -/
def startDogAt (w : World) (app : DogApp) (source : DogSource) (resting : Option ℕ) (a : Actor) :
    Except SupervisorError (List ProcessInfo) × Actor :=
  match resting with
  | none => a.startChecked w [app.config] (some source) .perApp []
  | some id =>
    let started := { a.removeSlot id with nextId := id }.startChecked w [app.config] (some source)
      .perApp []
    (started.1, { started.2.debugAssert (started.2.nextId == id + 1) "do_start_dog: next_id" with
      nextId := a.nextId })

/-- `do_start_dog`: reports the one already running under that name, or
spawns it, in the row it holds when that row is at rest. -/
def doStartDog (w : World) (app : DogApp) (source : DogSource) (a : Actor) :
    Except SupervisorError (List ProcessInfo) × Actor :=
  let name := app.config.name
  let held := a.idsWhere fun _ slot => slot.name == name
  if a.shuttingDown then (.error .engineStopped, a)
  else
    match if held.isEmpty then none else (a.sheep[w.pick held]?).map fun s => (w.pick held, s) with
    | some (id, slot) =>
      if a.isResting slot then
        ((a.recordBinary name source).clearDisabled [name]).startDogAt w app source (some id)
      else (.ok [toInfo id slot], a.cancelDogDisable name)
    | none => ((a.recordBinary name source).clearDisabled [name]).startDogAt w app source none

/-- `with_mark`. -/
def withMark (info : ProcessInfo) (a : Actor) : ProcessInfo :=
  if a.isDisabled info.name then { info with disabled := some true } else info

/-- `mark_disabled`, then `register_at_rest` for each app. -/
def registerAtRest (w : World) (apps : List AppConfig) (disabled : List String) (a : Actor) :
    List ProcessInfo × Actor :=
  let marked := (apps.map AppConfig.name).filter disabled.contains
  apps.foldl
    (fun (r : List ProcessInfo × Actor) app =>
      let registered := r.2.registerWithoutSpawning w app .stopped none none
      (r.1 ++ registered.2.1, registered.2.2))
    ([], { a with disabled := marked ∪ a.disabled })

/-- `register_dog_at_rest`: marks the dog only when this call registered
it. -/
def registerDogAtRest (w : World) (disabled : List String) (r : List ProcessInfo × Actor)
    (dog : AppConfig × DogSource) : List ProcessInfo × Actor :=
  match r.2.registerWithoutSpawning w dog.1 .stopped (some dog.2) none with
  | (true, infos, a) =>
    let a :=
      if disabled.contains dog.1.name then { a with disabled := [dog.1.name] ∪ a.disabled } else a
    (r.1 ++ infos.map a.withMark, a)
  | (false, infos, a) => (r.1 ++ infos, a)

/-! ## Disable and enable -/

/-- `apps_reached`: the distinct apps a selector reaches, dogs excluded. -/
def appsReached (selector : ProcessSelector) (sweep : Sweep) (a : Actor) :
    Except SupervisorError (List String) :=
  let matched := a.reachedIds selector sweep
  if matched.isEmpty then .error .notFound
  else
    let names := (matched.filterMap fun id => (a.sheep[id]?).bind fun slot =>
      if slot.entry.dog.isNone then some slot.name else none).dedup
    if names.isEmpty then
      .error (.isADog ("a dog is enabled and disabled by name, and `shep disable` and " ++
        "`shep enable` reach it that way"))
    else .ok names

/-- `abandon_serial_drain`: a reload still draining its instance ends, and
the instance's exit becomes an ordinary stop. -/
def abandonSerialDrain (a : Actor) (name : String) : Actor :=
  match a.reloads[name]? with
  | none => a
  | some job =>
    if job.swap.phase = .drainFirst then (a.dropJob name).clearReload job.swap.oldId else a

/-- `disable_apps`: the mark wins over what is in flight. -/
def disableApps (w : World) (names : List String) (reply : ReplyKind) (a : Actor) : Actor :=
  let ids := a.idsOfApps names
  let a := names.foldl abandonSerialDrain (a.remark names .restart .stop)
  { a with disabled := names ∪ a.disabled }.beginManualIds w ids .stop .operator reply

/-- `handle_disable`. -/
def handleDisable (w : World) (selector : ProcessSelector) (a : Actor) : Actor :=
  match a.appsReached selector .enabled with
  | .ok names => a.disableApps w names .info
  | .error .notFound =>
    if (a.reachedIds selector .disabled).isEmpty then a.answer (.info (.error .notFound))
    else a.answer (.info (.ok []))
  | .error err => a.answer (.info (.error err))

/-- `handle_disable_dog`: a name any sheep shares is not the dog's alone. -/
def handleDisableDog (w : World) (name : String) (a : Actor) : Actor :=
  let under := a.sheep.toList.filter fun entry => entry.2.name == name
  if !under.isEmpty && under.all fun entry => entry.2.entry.dog.isSome then
    a.disableApps w [name] .ids
  else a.answer (.ids (.error .notFound))

/-- `handle_enable`. -/
def handleEnable (w : World) (selector : ProcessSelector) (a : Actor) : Actor :=
  match a.appsReached selector .disabled with
  | .ok names =>
    if a.shuttingDown then a.answer (.info (.error .engineStopped))
    else
      let cleared := names.filter a.isDisabled
      let ids := a.idsOfApps cleared
      ((a.clearDisabled cleared).remark cleared .stop .restart).beginManualIds w ids .restart
        .operator .info
  | .error .notFound =>
    if (a.matchingIds selector).isEmpty then a.answer (.info (.error .notFound))
    else a.answer (.info (.ok []))
  | .error err => a.answer (.info (.error err))

/-- `restart_unless_disabled`. -/
def restartUnlessDisabled (w : World) (selector : ProcessSelector) (origin : CommandOrigin)
    (a : Actor) : Actor :=
  let matched := a.matchingIds selector
  let held := matched.filter a.isDisabledId
  let ids := matched.filter fun id => !a.isDisabledId id
  if matched.isEmpty then a.answer (.info (.error .notFound))
  else
    match held.head?.bind fun id => (a.sheep[id]?).map SheepSlot.name with
    | some name =>
      if origin = .operator ∧ selector.isExact then a.answer (.info (.error (.disabled name)))
      else a.beginManualIds w ids .restart origin .info
    | none => a.beginManualIds w ids .restart origin .info

/-- `prune_disabled`: a name no instance holds is free again. -/
def pruneDisabled (a : Actor) : Actor :=
  { a with disabled := a.disabled.filter a.heldNames.contains }

/-! ## Scale -/

/-- `try_with_count`: only `normalize` makes a config. -/
def tryWithCount (w : World) (app : AppConfig) (count : ℕ) : Except String AppConfig :=
  w.normalize { app with instances := count }

/-- The spawns of a scale-up: the ids it leaves, and the one a failed
spawn registered. -/
def scaleUp (w : World) (app : AppConfig) (credentials : Option Credentials) :
    List ℕ → List ℕ → Actor → List ℕ × Option (ℕ × String) × Actor
  | [], ids, a => (ids, none, a)
  | inst :: rest, ids, a =>
    match a.spawnFresh w app inst credentials none [] with
    | (.ok info, a') => scaleUp w app credentials rest (ids ++ [info.id]) a'
    | (.error message, a') => (ids, some (a.nextId, message), a')


end Actor

/-- `with_count`, with a refusal keeping the config as it was. -/
def recount (w : World) (count : ℕ) (app : AppConfig) : AppConfig :=
  match Actor.tryWithCount w app count with
  | .ok app => app
  | .error _ => app

/-- The config write-back of a scale on one slot: the stored spec, and the
parked one brought forward to the achieved count. -/
def SheepSlot.rescaled (w : World) (stored : AppConfig) (achieved : ℕ)
    (owed : Option (AppConfig × Bool)) (slot : SheepSlot) : SheepSlot :=
  let slot := { slot with entry := { slot.entry with spec := stored } }
  match slot.entry.pending, owed with
  | some parked, _ =>
    { slot with entry := { slot.entry with pending := some (recount w achieved parked) } }
  | none, some (parked, reidentifies) =>
    { slot with entry := { slot.entry with
        pending := some parked, pendingReidentifies := reidentifies } }
  | none, none => slot

namespace Actor

/-- The write-back and the answer of `handle_scale`. -/
def storeScaled (w : World) (firstId : ℕ) (rescaled : AppConfig) (count : ℕ) (survivors : List ℕ)
    (failed : Option (ℕ × String)) (a : Actor) : Except SupervisorError Scaled × Actor :=
  match tryWithCount w rescaled survivors.length with
  | .error err => (.error (.invalidScale err), a)
  | .ok stored =>
    let owed := (a.sheep[firstId]?).bind fun slot => slot.entry.pending.map fun parked =>
      (recount w survivors.length parked, slot.entry.pendingReidentifies)
    let a := (survivors ++ (failed.map Prod.fst).toList).foldl
      (fun a id => a.modifySlot id (SheepSlot.rescaled w stored survivors.length owed)) a
    (.ok ⟨sortFlock (survivors.flatMap fun id => a.infoOf id), stored, count,
      failed.map Prod.snd⟩, a)

/-- The spawn/remove pass of `handle_scale`, past its refusals. `slots`
are the app's instances and `first` the slot that speaks for them. -/
def rescale (w : World) (name : String) (count : ℕ) (slots : List (ℕ × ℕ)) (firstId : ℕ)
    (first : SheepSlot) (rescaled : AppConfig) (a : Actor) :
    Except SupervisorError Scaled × Actor :=
  let ids := slots.map Prod.snd
  if slots.length < count then
    match a.refuseDisabled [name] with
    | some name => (.error (.disabled name), a)
    | none =>
      match first.credentialsForSpawn w with
      | .error err => (.error (.cannotStart (name ++ ": " ++ err)), a)
      | .ok credentials =>
        let free := instanceSlots (slots.map Prod.fst) (count - slots.length)
        let up := scaleUp w rescaled credentials free ids
          (a.setSlot firstId (first.identified credentials))
        up.2.2.storeScaled w firstId rescaled count up.1 up.2.1
  else if count < slots.length then
    (a.beginManualIds w (ids.drop count) .delete .operator .ids).storeScaled w firstId rescaled
      count (ids.take count) none
  else a.storeScaled w firstId rescaled count ids none

/-- `handle_scale`. It never asks whether the engine is shutting down. -/
def handleScale (w : World) (name : String) (count : ℕ) (a : Actor) :
    Except SupervisorError Scaled × Actor :=
  let slots := a.slotsOfName name
  match slots.head?.bind fun s => (a.sheep[s.2]?).map fun slot => (s.2, slot) with
  | none => (.error .notFound, a)
  | some (firstId, first) =>
    let leaving := slots.filter fun s => (a.sheep[s.2]?).any SheepSlot.pendingDelete
    if count = 0 then
      (.error (.invalidScale ("an app runs at least one instance; use `shep delete " ++ name ++
        "` to remove it")), a)
    else if first.entry.dog.isSome then
      (.error (.invalidScale (name ++ " is a dog, and a dog runs one process")), a)
    else if (a.reloads[name]?).isSome then (.error (.reloadInFlight name), a)
    else if !leaving.isEmpty then
      (.error (.invalidScale (name ++ " has " ++ toString leaving.length ++ " instance(s) still " ++
        "shutting down from an earlier command; wait for them to leave `shep flock` and scale " ++
        "again")), a)
    else
      match tryWithCount w first.entry.spec count with
      | .error err => (.error (.invalidScale err), a)
      | .ok rescaled => a.rescale w name count slots firstId first rescaled

end Actor

end Supervisor

end Shep
