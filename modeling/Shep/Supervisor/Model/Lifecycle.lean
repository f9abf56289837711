import Shep.Supervisor.Model.Actor

/-!
# Supervisor — spawning, respawning and manual commands

`actor_spawn.rs` and `actor_lifecycle.rs`: registering an instance with or
without a process, respawning one in place, and the claim a `stop`,
`restart` or `delete` lays on a running sheep's next exit.
-/

namespace Shep

namespace Supervisor

namespace SheepSlot

/-- `promote_pending`: the parked config moves onto the stored spec, and
takes the resolved identity with it where it changes who the app runs as. -/
def promotePending (slot : SheepSlot) : SheepSlot :=
  match slot.entry.pending with
  | none => slot
  | some pending =>
    { slot with
      entry := { slot.entry with
        spec := pending
        pending := none
        pendingReidentifies := false
        credentials := if slot.entry.pendingReidentifies then .unresolved
          else slot.entry.credentials } }

/-- `respawn_failed`: `Errored`, with the refusal on the row. -/
def failed (slot : SheepSlot) (reason : String) : SheepSlot :=
  let slot := slot.clearLifecycle .errored
  { slot with entry := { slot.entry with spawnFailure := some (slot.name ++ ": " ++ reason) } }

/-- A new process under a registered id. -/
def relaunched (slot : SheepSlot) (task pid now : ℕ) : SheepSlot :=
  { slot with
    entry := { slot.entry with
      status := if slot.entry.spec.gated then .starting else .online
      pid := some pid
      spawnFailure := none
      startedAt := some now
      restarts := slot.entry.restarts + 1 }
    ctl := some task
    epoch := slot.epoch + 1
    readyFailed := false }

/-- `credentials_for_spawn`: resolved once, and again only when a
promoted config asked for another identity. -/
def credentialsForSpawn (w : World) (slot : SheepSlot) : Except String (Option Credentials) :=
  match slot.entry.credentials with
  | .resolved credentials => .ok credentials
  | .unresolved => w.resolve slot.entry.spec

/-- Stores a resolved identity. -/
def identified (slot : SheepSlot) (credentials : Option Credentials) : SheepSlot :=
  { slot with entry := { slot.entry with credentials := .resolved credentials } }

end SheepSlot

namespace Actor

/-! ## Lookups -/

/-- Whether the app of that name carries the disabled mark. -/
def isDisabled (name : String) (a : Actor) : Bool := a.disabled.contains name

/-- `is_disabled_id`. -/
def isDisabledId (id : ℕ) (a : Actor) : Bool :=
  match a.sheep[id]? with
  | some slot => a.isDisabled slot.name
  | none => false

/-- The app whose job satisfies `p`, if one does. -/
def jobWhere (p : ReloadJob → Bool) (a : Actor) : Option String :=
  (a.reloads.toList.find? fun entry => p entry.2).map Prod.fst

/-- `reload_of`. -/
def reloadOf (id : ℕ) (a : Actor) : Option String := a.jobWhere fun job => job.names id

/-- `uncommitted_swap_of`. -/
def uncommittedSwapOf (id : ℕ) (a : Actor) : Option String :=
  a.jobWhere fun job => job.swap.phase == .awaitReady && job.names id

/-- `serial_drain_of`. -/
def serialDrainOf (oldId : ℕ) (a : Actor) : Option String :=
  a.jobWhere fun job => job.swap.phase == .drainFirst && job.swap.oldId == oldId

/-- `reached_ids`: a wildcard passes every dog by, and every app on the
wrong side of the disabled mark. -/
def reachedIds (selector : ProcessSelector) (sweep : Sweep) (a : Actor) : List ℕ :=
  a.idsWhere fun id slot =>
    (selector.isExact || (slot.entry.dog.isNone && sweep.reaches (a.isDisabled slot.name))) &&
      selector.hits slot.name id slot.entry.spec.fold slot.entry.inst

/-- `matching_ids`. -/
def matchingIds (selector : ProcessSelector) (a : Actor) : List ℕ :=
  a.reachedIds selector .enabled

/-- The registered instances of an app, as `(instance, id)` in that order. -/
def slotsOfName (name : String) (a : Actor) : List (ℕ × ℕ) :=
  ((a.sheep.toList.filter fun entry => entry.2.name == name).map fun entry =>
    (entry.2.entry.inst, entry.1)).insertionSort
      fun x y => x.1 < y.1 ∨ (x.1 = y.1 ∧ x.2 ≤ y.2)

/-- `ids_of_name`. -/
def idsOfName (name : String) (a : Actor) : List ℕ := (a.slotsOfName name).map Prod.snd

/-- `ids_of_apps`. -/
def idsOfApps (names : List String) (a : Actor) : List ℕ :=
  a.idsWhere fun _ slot => names.contains slot.name

/-- `overridden_for`: a registered sibling's, or the override store's. -/
def overriddenFor (w : World) (name : String) (a : Actor) : List String :=
  match a.sheep.toList.find? fun entry => entry.2.name == name with
  | some entry => entry.2.entry.overridden
  | none => w.overriddenOf name

/-- The recorded names of the apps that hold a slot. -/
def heldNames (a : Actor) : List String := a.sheep.toList.map fun entry => entry.2.name

/-! ## Starting a process -/

/-- `spawn_sheep_task`: a new life for `id`, under a fresh serial. -/
def startTask (id pid : ℕ) (spec : AppConfig) (credentials : Option Credentials) (via : SpawnVia)
    (a : Actor) : Actor :=
  let task : Task := ⟨a.nextTask, id, spec.name, via, pid, spec, credentials⟩
  { a with
    tasks := task :: a.tasks
    nextTask := a.nextTask + 1
    trace := .spawned task :: a.trace }

/-- `spawn_readiness_task`. -/
def armReady (id epoch : ℕ) (manually : Bool) (a : Actor) : Actor :=
  { a with readies := ⟨id, epoch, manually⟩ :: a.readies }

/-- `schedule_restart`. -/
def scheduleRestart (id epoch : ℕ) (delay : Option ℕ) (a : Actor) : Actor :=
  { a with
    timers := ⟨a.nextTimer, id, epoch, delay⟩ :: a.timers
    nextTimer := a.nextTimer + 1
    trace := .waiting id a.nextTimer :: a.trace }

/-- `assemble_for_spawn`, then the placement and the sockets: a sandboxed
app goes through its dog or not at all. -/
def assembleForSpawn (w : World) (id : ℕ) (app : AppConfig) (inst : ℕ) (a : Actor) :
    Except AssembleError Unit :=
  match w.assemble app inst with
  | .error err => .error err
  | .ok () =>
    if app.isSandboxed &&
        !((a.dogBinaries.any fun dog => dog.1 == sandboxDog) && !a.isDisabled sandboxDog) then
      .error (.dogMissing sandboxDog)
    else w.place id app

/-- The slot lands in `WaitingRestart` with a timer of its current epoch. -/
def backOff (id : ℕ) (slot : SheepSlot) (delay : Option ℕ) (a : Actor) : Actor :=
  (a.setSlot id slot).scheduleRestart id slot.epoch delay

/-- `refuse_spawn`: a retriable refusal waits on the crash budget, any
other is `Errored`. -/
def refuseSpawn (id : ℕ) (slot : SheepSlot) (err : AssembleError) (a : Actor) : Actor :=
  if !err.isRetriable then a.setSlot id (slot.failed err.text)
  else
    let budget := slot.entry.budget.noteFailedStart
    let slot := { slot with entry := { slot.entry with budget := budget } }
    if budget.exhausted slot.entry.spec.maxRestarts then a.setSlot id (slot.failed err.text)
    else a.backOff id (slot.clearLifecycle .waitingRestart)
      (restartDelay slot.entry.spec budget.unstableCount)

/-- The stop half of `apply_immediate`: a waiting or errored slot lands in
`Stopped`, any other is left as it is. -/
def applyImmediateStop (id : ℕ) (slot : SheepSlot) (a : Actor) : Actor :=
  match slot.entry.status with
  | .waitingRestart | .errored => a.setSlot id (slot.setStatus .stopped)
  | _ => a

/-- The spawn of `respawn`, from the promoted slot. -/
def respawnFrom (w : World) (id : ℕ) (manually : Bool) (slot : SheepSlot) (a : Actor) : Actor :=
  match slot.credentialsForSpawn w with
  | .error reason => a.setSlot id (slot.failed reason)
  | .ok credentials =>
    let slot := slot.identified credentials
    match a.assembleForSpawn w id slot.entry.spec slot.entry.inst with
    | .error err => a.refuseSpawn id slot err
    | .ok () =>
      match w.spawn id slot.entry.spec with
      | .error reason => a.setSlot id (slot.failed reason)
      | .ok pid =>
        let relaunched := slot.relaunched a.nextTask pid w.now
        let a := (a.startTask id pid slot.entry.spec credentials .respawn).setSlot id relaunched
        if slot.entry.spec.gated then a.armReady id relaunched.epoch manually else a

/-- `respawn`: the last word on the disabled mark, then a new process
under the registered id. -/
def respawn (w : World) (id : ℕ) (manually : Bool) (a : Actor) : Actor :=
  match a.sheep[id]? with
  | none => a.panic "respawn: unknown id"
  | some slot =>
    if a.isDisabled slot.name then
      match slot.entry.status with
      | .waitingRestart => a.applyImmediateStop id slot
      | _ => a
    else a.respawnFrom w id manually slot.promotePending

/-- The slot every registration starts from. -/
def freshSlot (w : World) (app : AppConfig) (inst : ℕ) (credentials : SpawnIdentity)
    (dog : Option DogSource) (status : ProcStatus) (a : Actor) : SheepSlot :=
  { entry := {
      spec := app
      overridden := a.overriddenFor w app.name
      inst := inst
      status := status
      credentials := credentials
      dog := dog } }

/-- `spawn_fresh` under an id already taken off the counter. -/
def spawnFreshAt (w : World) (id : ℕ) (app : AppConfig) (inst : ℕ)
    (credentials : Option Credentials) (dog : Option DogSource) (gate : List String) (a : Actor) :
    Except String ProcessInfo × Actor :=
  let slot := a.freshSlot w app inst (.resolved credentials) dog .errored
  match a.assembleForSpawn w id app inst with
  | .error err =>
    let a := a.refuseSpawn id slot err
    if err.isRetriable then
      match a.sheep[id]? with
      | some slot => (.ok (toInfo id slot), a)
      | none => (.error err.text, a)
    else (.error err.text, a)
  | .ok () =>
    match w.spawn id app with
    | .error reason =>
      let message := reason ++ "; " ++ w.attempted app
      let slot := { slot with
        entry := { slot.entry with spawnFailure := some (app.name ++ ": " ++ message) } }
      (.error message, a.setSlot id slot)
    | .ok pid =>
      let gated := app.gated || gate.contains app.name
      let slot := { slot with
        entry := { slot.entry with
          status := if gated then .starting else .online
          pid := some pid
          startedAt := some w.now }
        ctl := some a.nextTask }
      let a := (a.startTask id pid app credentials .fresh).setSlot id slot
      (.ok (toInfo id slot), if gated then a.armReady id 0 true else a)

/-- `spawn_fresh`. -/
def spawnFresh (w : World) (app : AppConfig) (inst : ℕ) (credentials : Option Credentials)
    (dog : Option DogSource) (gate : List String) (a : Actor) :
    Except String ProcessInfo × Actor :=
  { a with nextId := a.nextId + 1 }.spawnFreshAt w a.nextId app inst credentials dog gate

/-- `register_without_spawning`: idempotent by name. The boolean says the
row is new. -/
def registerWithoutSpawning (w : World) (app : AppConfig) (status : ProcStatus)
    (dog : Option DogSource) (failure : Option String) (a : Actor) :
    Bool × List ProcessInfo × Actor :=
  match a.sheep.toList.find? fun entry => entry.2.name == app.name with
  | some entry => (false, [toInfo entry.1 entry.2], a)
  | none =>
    let slot := a.freshSlot w app 0 .unresolved dog status
    let slot := { slot with entry := { slot.entry with spawnFailure := failure } }
    (true, [toInfo a.nextId slot], { a with nextId := a.nextId + 1 }.setSlot a.nextId slot)

/-! ## Claiming an exit -/

/-- Writes the marker on a slot and records the claim. -/
def mark (id : ℕ) (slot : SheepSlot) (manual : PendingManual) (cap : LadderCap) (a : Actor) :
    Actor :=
  { a.setSlot id { slot with manual := some manual } with
    trace := .claimed id manual cap :: a.trace }

/-- Starts the kill ladder of the task behind `ctl`, if there is one. -/
def sendKill (ctl : Option ℕ) (grace : ℕ) (a : Actor) : Actor :=
  match ctl with
  | some task => { a with trace := .killed task grace :: a.trace }
  | none => a

/-- `claim_manual`: the first command to reach a running sheep owns its
marker and its one kill, and an operator's takes the marker off an
automatic restart. -/
def claimManual (id : ℕ) (manual : PendingManual) (cap : LadderCap) (a : Actor) : Actor :=
  match a.sheep[id]? with
  | none => a
  | some slot =>
    match slot.manual with
    | none => (a.mark id slot manual cap).sendKill slot.ctl (cap.of slot.entry.spec)
    | some inFlight =>
      if inFlight.origin = .automatic ∧ manual.origin = .operator then a.mark id slot manual cap
      else a

/-- Records that `id` must be deregistered once it goes terminal. -/
def markDelete (id : ℕ) (a : Actor) : Actor :=
  a.modifySlot id fun slot => { slot with pendingDelete := true }

/-- `apply_immediate`: a manual command on a sheep with no live task. -/
def applyImmediate (w : World) (id : ℕ) (kind : ManualKind) (origin : CommandOrigin) (a : Actor) :
    List ProcessInfo × Actor :=
  match a.sheep[id]? with
  | none => ([], a)
  | some slot =>
    match kind with
    | .stop =>
      let a := a.applyImmediateStop id slot
      (a.infoOf id, a)
    | .delete => ([toInfo id slot], a.removeSlot id)
    | .restart =>
      let reset := { slot with entry := { slot.entry with budget := slot.entry.budget.reset } }
      let a := (a.setSlot id reset).respawn w id (origin == .operator)
      (a.infoOf id, a)

/-- What `begin_manual_ids` has gathered part way through its ids. -/
structure Gathered where
  remaining : List ℕ
  results : List ProcessInfo
  actor : Actor

/-- One id of `begin_manual_ids`: held off by an uncommitted swap, claimed
while running, or applied at once. -/
def manualOne (w : World) (kind : ManualKind) (origin : CommandOrigin) (g : Gathered) (id : ℕ) :
    Gathered :=
  let a := g.actor
  if origin = .automatic ∧ (a.uncommittedSwapOf id).isSome then g
  else if a.isRunning id then
    let a := a.claimManual id ⟨kind, origin⟩ .stop
    let a := if kind = .delete then a.markDelete id else a
    { g with remaining := g.remaining ++ [id], actor := a }
  else
    let applied := a.applyImmediate w id kind origin
    { g with results := g.results ++ applied.1, actor := applied.2 }

/-- Parks a reply until every id of `remaining` has exited. -/
def park (remaining : List ℕ) (results : List ProcessInfo) (kind : ReplyKind) (a : Actor) :
    Actor :=
  let tasks := remaining.filterMap fun id => (a.sheep[id]?).bind SheepSlot.ctl
  { a with
    pending := a.pending ++ [⟨a.nextReply, remaining, results, kind⟩]
    nextReply := a.nextReply + 1
    trace := .parked a.nextReply tasks :: a.trace }

/-- `begin_manual_ids`. -/
def beginManualIds (w : World) (matched : List ℕ) (kind : ManualKind) (origin : CommandOrigin)
    (reply : ReplyKind) (a : Actor) : Actor :=
  let g := matched.foldl (manualOne w kind origin) ⟨[], [], a⟩
  if g.remaining.isEmpty then g.actor.answer (reply.payload (.ok (sortFlock g.results)))
  else g.actor.park g.remaining g.results reply

/-- `built_in_dog_name`. -/
def builtInDogName (id : ℕ) (a : Actor) : Option String :=
  match a.sheep[id]? with
  | some slot => if slot.entry.dog = some .builtIn then some slot.name else none
  | none => none

/-- `begin_manual`: a `Delete` that reaches a built-in dog is refused
whole. -/
def beginManual (w : World) (selector : ProcessSelector) (kind : ManualKind)
    (origin : CommandOrigin) (reply : ReplyKind) (a : Actor) : Actor :=
  let matched := a.matchingIds selector
  if matched.isEmpty then a.answer (reply.payload (.error .notFound))
  else
    match if kind = .delete then matched.findSome? fun id => a.builtInDogName id else none with
    | some name =>
      a.answer (reply.payload
        (.error (.isADog (name ++ " is built in: `shep disable " ++ name ++ "`"))))
    | none => a.beginManualIds w matched kind origin reply

/-! ## Answering parked replies -/

end Actor

/-- Takes `id` out of a parked reply, with the row its exit left. -/
def PendingReply.settle (id : ℕ) (info : ProcessInfo) (p : PendingReply) : PendingReply :=
  if p.remaining.contains id then
    { p with remaining := p.remaining.filter fun other => other ≠ id
             results := p.results ++ [info] }
  else p

namespace Actor

/-- `resolve_pending`: `id` has gone terminal, and every reply that was
waiting on nothing else is sent. A `Shutdown` sent here breaks the loop. -/
def resolvePending (id : ℕ) (info : ProcessInfo) (a : Actor) : Actor :=
  let settled := a.pending.map (PendingReply.settle id info)
  let ready := settled.filter fun p => p.remaining.isEmpty
  let a := { a with
    pending := settled.filter fun p => !p.remaining.isEmpty
    done := a.done || ready.any fun p => p.kind == .shutdown }
  ready.foldl (fun a p => a.sendReply p.tag (p.kind.payload (.ok (sortFlock p.results)))) a

end Actor

end Supervisor

end Shep
