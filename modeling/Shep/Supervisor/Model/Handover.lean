import Shep.Supervisor.Model.Run

/-!
# Supervisor — the flock across an exec

`actor_exit.rs`'s `handle_handover_snapshot`, `carried.rs`,
`actor_spawn.rs`'s `install_adopted` and `install_carried_reloads` and
`builder.rs`'s `spawn_adopted`: what a shepherd writes down for the image
that replaces it, and what that image makes of it. The descriptors and a
dog link's topics travel beside the rows and are left out.
-/

namespace Shep

namespace Supervisor

/-! ## The blob -/

/-- `CarriedSheep`: one sheep, as the successor will find it. -/
structure CarriedSheep where
  id : ℕ
  name : String
  inst : ℕ
  pid : Option ℕ
  restarts : ℕ
  epoch : ℕ
  status : ProcStatus
  lastExit : Option ExitOutcome
  spawnFailure : Option String
  credentials : SpawnIdentity
  pendingDelete : Option Bool
  manual : Option PendingManual
  reload : Option ReloadState
  readyFailed : Option Bool
  restartDue : Option ℕ
  dog : Option DogSource
  pending : Option AppConfig
  pendingReidentifies : Option Bool
  disabled : Option Bool
  app : AppConfig
  deriving Repr, DecidableEq

/-- `CarriedSheep::from_entry`. The due moment is gated on the status: the
slot's own field is never cleared. -/
def CarriedSheep.fromEntry (id : ℕ) (entry : ProcessEntry) (epoch : ℕ) (pendingDelete : Bool)
    (manual : Option PendingManual) (readyFailed : Bool) (restartDue : Option ℕ) : CarriedSheep where
  id := id
  name := entry.spec.name
  inst := entry.inst
  pid := entry.pid
  restarts := entry.restarts
  epoch := epoch
  status := entry.status
  lastExit := entry.lastExit
  spawnFailure := entry.spawnFailure
  credentials := entry.credentials
  pendingDelete := some pendingDelete
  manual := manual
  reload := some entry.reload
  readyFailed := some readyFailed
  restartDue := if entry.status = .waitingRestart then restartDue else none
  dog := entry.dog
  pending := entry.pending
  pendingReidentifies := entry.pending.map fun _ => entry.pendingReidentifies
  disabled := none
  app := entry.spec

/-- `with_disabled`: the mark lives on the app set, not on the entry. -/
def CarriedSheep.withDisabled (row : CarriedSheep) (disabled : Bool) : CarriedSheep :=
  { row with disabled := some disabled }

/-- `CarriedReload`: a job without its stamp, which dies with the image. -/
structure CarriedReload where
  app : String
  queue : List ℕ
  mode : ReloadMode
  swap : ReloadSwap
  deriving Repr, DecidableEq

/-- `Counters`. -/
structure Counters where
  nextId : ℕ
  nextDeadline : ℕ
  nextActionStamp : ℕ
  deriving Repr, DecidableEq

/-- `Handover`: what crosses the exec. -/
structure Handover where
  sheep : List CarriedSheep
  counters : Counters
  reloads : List CarriedReload
  deriving Repr, DecidableEq

/-- The actor, with the two things it holds that only a handover reads:
the moments its owed respawns fall due and the counter of its action
waits. -/
structure Shepherd where
  actor : Actor
  restartDue : ℕ → Option ℕ
  nextActionStamp : ℕ

namespace Shepherd

/-- One `HandoverDraft`, and the row `spawn_handover_task` makes of it. -/
def describe (d : Shepherd) (id : ℕ) (slot : SheepSlot) : CarriedSheep :=
  (CarriedSheep.fromEntry id slot.entry slot.epoch slot.pendingDelete slot.manual slot.readyFailed
    (d.restartDue id)).withDisabled (d.actor.isDisabledId id)

/-- `handle_handover_snapshot`: every registered entry in id order, but a
parked dog, which a successor registers for itself. -/
def handleHandoverSnapshot (d : Shepherd) : Handover where
  sheep := (d.actor.sheep.toList.filter fun entry => !d.actor.isParkedDog entry.2).map
    fun entry => d.describe entry.1 entry.2
  counters := ⟨d.actor.nextId, d.actor.nextDeadline, d.nextActionStamp⟩
  reloads := d.actor.reloads.toList.map fun entry =>
    ⟨entry.1, entry.2.queue, entry.2.mode, entry.2.swap⟩

end Shepherd

/-! ## The successor -/

/-- What the successor's image asks outside while it adopts: the world of
any handler, `runner.adopt` with the pid of the process it wraps,
`started_at_of` and the wall clock. -/
structure Heir extends World where
  adopt : String → ℕ → Except String ℕ
  startedAtOf : ℕ → ℕ
  wall : ℕ

/-- `AdoptError`. -/
inductive AdoptError where
  | spec (sheep source : String)
  | runner (sheep source : String)
  deriving Repr, DecidableEq

/-- `adopted_restart_delay`: what is left of an owed wait, never more than
a first unstable exit would wait. Zero is the immediate restart. -/
def adoptedRestartDelay (app : AppConfig) (due : Option ℕ) (now : ℕ) : Option ℕ :=
  match due with
  | none => restartDelay app 1
  | some due =>
    let remaining :=
      match restartDelay app 1 with
      | some ceiling => min (due - now) ceiling
      | none => 0
    if 0 < remaining then some remaining else none

/-- The credentials of an identity, none while it is unresolved. -/
def SpawnIdentity.credentials : SpawnIdentity → Option Credentials
  | .resolved credentials => credentials
  | .unresolved => none

namespace CarriedSheep

/-- Which cap a carried marker's ladder runs under: a drainee was asked
under its own. -/
def ladderCap (row : CarriedSheep) : LadderCap :=
  match row.reload.getD .none with
  | .drainee _ => .drain
  | .none | .replacement => .stop

/-- The parked config a row carries, where the successor accepts it. -/
def adoptedPending (heir : Heir) (row : CarriedSheep) : Option AppConfig :=
  row.pending.bind fun parked => (heir.normalize parked).toOption

/-- The entry a row becomes, before its process is adopted. -/
def adoptedEntry (heir : Heir) (row : CarriedSheep) (app : AppConfig) (overridden : List String) :
    ProcessEntry where
  spec := app
  pending := row.adoptedPending heir
  pendingReidentifies :=
    (row.adoptedPending heir).isSome && row.pendingReidentifies.getD false
  overridden := overridden
  inst := row.inst
  status := row.status
  pid := row.pid
  restarts := row.restarts
  startedAt := none
  budget := {}
  reload := row.reload.getD .none
  credentials := row.credentials
  dog := row.dog
  lastExit := row.lastExit
  spawnFailure := row.spawnFailure

end CarriedSheep

namespace Actor

/-- `spawn_sheep_task` around a process this image inherited: a task, and
nothing spawned. -/
def adoptTask (id pid : ℕ) (spec : AppConfig) (credentials : Option Credentials) (a : Actor) :
    Actor :=
  { a with
    tasks := ⟨a.nextTask, id, spec.name, .adopted, pid, spec, credentials⟩ :: a.tasks
    nextTask := a.nextTask + 1 }

/-- A carried row with no process: a slot, and the timer an owed respawn
is waiting on. -/
def installIdle (heir : Heir) (row : CarriedSheep) (app : AppConfig) (entry : ProcessEntry)
    (a : Actor) : Actor :=
  let slot : SheepSlot :=
    { entry := entry
      pendingDelete := row.pendingDelete.getD false
      epoch := row.epoch
      readyFailed := row.readyFailed.getD false }
  let a := a.setSlot row.id slot
  if row.status = .waitingRestart then
    a.scheduleRestart row.id row.epoch (adoptedRestartDelay app row.restartDue heir.wall)
  else a

/-- A carried row with a process: its readiness wait, its task and its
slot, and the ladder of the marker it carried. -/
def installLive (heir : Heir) (row : CarriedSheep) (app : AppConfig) (entry : ProcessEntry)
    (pid : ℕ) (a : Actor) : Actor :=
  let readyFailed := row.readyFailed.getD false
  let slot : SheepSlot :=
    { entry := { entry with pid := some pid, startedAt := some (heir.startedAtOf pid) }
      ctl := some a.nextTask
      pendingDelete := row.pendingDelete.getD false
      epoch := row.epoch
      readyFailed := readyFailed }
  let a := if row.status = .starting ∧ readyFailed = false then
      a.armReady row.id row.epoch (row.reload.getD .none == .replacement) else a
  let a := (a.adoptTask row.id pid app row.credentials.credentials).setSlot row.id slot
  match row.manual with
  | some manual => a.claimManual row.id manual row.ladderCap
  | none => a

/-- `install_carried_reloads`, on one job: dropped when it names nothing
this image was given, else restored under a fresh watchdog. -/
def installCarriedReload (a : Actor) (carried : CarriedReload) : Actor :=
  let registered := fun id => (a.sheep[id]?).isSome
  match (carried.swap.newId.filter registered).or
      (if registered carried.swap.oldId then some carried.swap.oldId else none) with
  | none => a
  | some anchor =>
    let job : ReloadJob := ⟨carried.queue, carried.mode, carried.swap, 0⟩
    let a := (a.putJob carried.app job).armReloadDeadline carried.app anchor
    match carried.swap.phase, carried.swap.newId with
    | .verify, some newId =>
      if a.postDrainProbe newId carried.mode then a.spawnVerifyTask carried.app newId else a
    | _, _ => a

end Actor

namespace Shepherd

/-- `install_adopted`. -/
def installAdopted (heir : Heir) (d : Shepherd) (row : CarriedSheep) :
    Except AdoptError Shepherd :=
  match heir.normalize row.app with
  | .error source => .error (.spec row.name source)
  | .ok app =>
    let a := if row.disabled = some true then
        { d.actor with disabled := [app.name] ∪ d.actor.disabled } else d.actor
    let entry := row.adoptedEntry heir app (a.overriddenFor heir.toWorld app.name)
    let restartDue := Function.update d.restartDue row.id row.restartDue
    match row.pid with
    | none =>
      .ok { d with actor := a.installIdle heir row app entry, restartDue := restartDue }
    | some pid =>
      match heir.adopt row.name pid with
      | .error source => .error (.runner row.name source)
      | .ok pid =>
        .ok { d with actor := a.installLive heir row app entry pid, restartDue := restartDue }

/-- The rows of a blob, one after another; the first refusal ends it. -/
def installRows (heir : Heir) : List CarriedSheep → Shepherd → Except AdoptError Shepherd
  | [], d => .ok d
  | row :: rows, d =>
    match d.installAdopted heir row with
    | .error err => .error err
    | .ok d => installRows heir rows d

/-- The actor `spawn_adopted` starts from: empty, on the carried counters. -/
def inherit (dogBinaries : List (String × String)) (counters : Counters) : Shepherd where
  actor := { Actor.init dogBinaries with
    nextId := counters.nextId
    nextDeadline := counters.nextDeadline }
  restartDue := fun _ => none
  nextActionStamp := counters.nextActionStamp

/-- `spawn_adopted`: the counters, then the flock, then its reloads. -/
def spawnAdopted (heir : Heir) (dogBinaries : List (String × String)) (blob : Handover) :
    Except AdoptError Shepherd :=
  match installRows heir blob.sheep (inherit dogBinaries blob.counters) with
  | .error err => .error err
  | .ok d => .ok { d with actor := blob.reloads.foldl Actor.installCarriedReload d.actor }

end Shepherd

end Supervisor

end Shep
