import Shep.Supervisor.Model.Config

/-!
# Supervisor — the run loop

`Actor::run` and `handle_command`. A message is either a command, which
may arrive at any moment, or the report of something the actor set going,
which arrives once and only while it is in flight. The loop reads nothing
after a shutdown has been answered or a handler has panicked.
-/

namespace Shep

namespace Supervisor

/-- The commands that reach the flock. The ones that only read it, or that
touch a log, a terminal, an action wait or a mark on a listing, are
`inspect`, and so are a child's own messages. -/
inductive Command where
  | start (apps : List AppConfig) (policy : BatchPolicy) (gate : List String)
  | registerAtRest (apps : List AppConfig) (disabled : List String)
  | registerDogsAtRest (dogs : List (AppConfig × DogSource)) (disabled : List String)
  | startDog (app : DogApp) (source : DogSource)
  | scale (name : String) (count : ℕ)
  | applyConfig (apps : List DeclaredApp) (reset : ResetDepth)
  | setSheepEnv (name key : String) (value : Option String)
  | setSheepEnvBatch (name : String) (entries : List (String × String)) (force dryRun : Bool)
  | copySheepEnv (source target : String) (replace : Bool) (keep : List String) (dryRun : Bool)
      (reviewed : Option (List EnvCopyChange))
  | setSheepField (name key value : String)
  | resetSheepField (name key : String)
  | setSheepDogSettings (name dog : String) (table : Option String)
  | list
  | inspect
  | reset (selector : ProcessSelector)
  | stop (selector : ProcessSelector)
  | restart (selector : ProcessSelector) (origin : CommandOrigin)
  | disable (selector : ProcessSelector)
  | disableDog (name : String)
  | enable (selector : ProcessSelector)
  | extraRestart (id pid : ℕ) (epoch observed : Option ℕ)
  | reload (selector : ProcessSelector)
  | delete (selector : ProcessSelector)
  | shutdown

/-- `Msg`. A report carries the thing in flight that sends it. -/
inductive Msg where
  | command (command : Command)
  | exited (task : Task) (outcome : ExitOutcome) (oomKilled : Bool)
  | restartDue (timer : RestartTimer)
  | readyResult (wait : ReadyWait) (readiness : Readiness)
  | reloadDeadline (watchdog : Watchdog)
  | reloadVerified (verify : VerifyWait) (readiness : Readiness)

/-- The process an effect started. -/
def Effect.started : Effect → Option Task
  | .spawned task => some task
  | _ => none

/-- The timer an effect armed for `id`. -/
def Effect.armed (id : ℕ) : Effect → Option ℕ
  | .waiting j timer => if j = id then some timer else none
  | _ => none

/-- Whether an effect is the end of the life `task`. -/
def Effect.ends (task : ℕ) : Effect → Bool
  | .exited k => k == task
  | _ => false

/-- Whether an effect is a kill sent to the life `task`. -/
def Effect.kills (task : ℕ) : Effect → Bool
  | .killed k _ => k == task
  | _ => false

/-- Whether an effect is an answer on the reply channel `tag`. -/
def Effect.answers (tag : ℕ) : Effect → Bool
  | .replied t _ => t == tag
  | _ => false

namespace Actor

/-- `handle_reset` on one slot: a stopped dog keeps the record of its last
exit. -/
def resetSlot (slot : SheepSlot) : SheepSlot :=
  { slot with
    entry := { slot.entry with
      restarts := 0
      budget := slot.entry.budget.reset
      lastExit := if slot.entry.dog.isSome && slot.entry.status == .stopped then
          slot.entry.lastExit else none } }

/-- `handle_reset`. -/
def handleReset (selector : ProcessSelector) (a : Actor) : Actor :=
  let ids := a.reachedIds selector .any
  if ids.isEmpty then a.answer (.info (.error .notFound))
  else
    let a := ids.foldl (fun a id => a.modifySlot id resetSlot) a
    a.answer (.info (.ok (sortFlock ((ids.flatMap fun id => a.infoOf id).map a.withMark))))

/-- `snapshot_all`. -/
def snapshotAll (a : Actor) : List ProcessInfo :=
  sortFlock (a.sheep.toList.map fun entry => a.withMark (toInfo entry.1 entry.2))

/-- Answers with an outcome, on the state it left. -/
def answering {α : Type} (payload : α → Answer) (r : α × Actor) : Actor :=
  r.2.answer (payload r.1)

/-- `handle_command`. -/
def handleCommand (w : World) (command : Command) (a : Actor) : Actor :=
  match command with
  | .start apps policy gate =>
    if a.shuttingDown then a.answer (.info (.error .engineStopped))
    else answering .info (a.doStart w apps policy gate)
  | .registerAtRest apps disabled =>
    answering (fun rows => .info (.ok rows)) (a.registerAtRest w apps disabled)
  | .registerDogsAtRest dogs disabled =>
    answering (fun rows => .info (.ok rows)) (dogs.foldl (registerDogAtRest w disabled) ([], a))
  | .startDog app source => answering .info (a.doStartDog w app source)
  | .scale name count => answering .scaled (a.handleScale w name count)
  | .applyConfig apps reset =>
    answering (fun report => .applied (report.map fun r => (r.name, r.refused, r.app)))
      (a.handleApplyConfig w apps reset)
  | .setSheepEnv name key value => answering .config (a.handleSetSheepEnv w name key value)
  | .setSheepEnvBatch name entries force dryRun =>
    answering .config (a.handleSetSheepEnvBatch w name entries force dryRun)
  | .copySheepEnv source target replace keep dryRun reviewed =>
    answering .config (a.handleCopySheepEnv w source target replace keep dryRun reviewed)
  | .setSheepField name key value =>
    answering .config (a.handleSheepField w name key (.set value))
  | .resetSheepField name key => answering .config (a.handleSheepField w name key .reset)
  | .setSheepDogSettings name dog table =>
    answering .config (a.handleSetSheepDogSettings w name dog table)
  | .list => a.answer (.info (.ok a.snapshotAll))
  | .inspect => a
  | .reset selector => a.handleReset selector
  | .stop selector => a.beginManual w selector .stop .operator .info
  | .restart selector origin =>
    if a.shuttingDown then a.answer (.info (.error .engineStopped))
    else a.restartUnlessDisabled w selector origin
  | .disable selector => a.handleDisable w selector
  | .disableDog name => a.handleDisableDog w name
  | .enable selector => a.handleEnable w selector
  | .extraRestart id pid epoch observed => a.handleExtraRestart w id pid epoch observed
  | .reload selector =>
    if a.shuttingDown then a.answer (.info (.error .engineStopped))
    else a.handleReload w selector
  | .delete selector => a.beginManual w selector .delete .operator .ids
  | .shutdown => a.beginShutdown

/-- Whether a message can be the next one the loop reads. -/
def admits (a : Actor) : Msg → Prop
  | .command _ => True
  | .exited task _ _ => task ∈ a.tasks
  | .restartDue timer => timer ∈ a.timers
  | .readyResult wait _ => wait ∈ a.readies
  | .reloadDeadline watchdog => watchdog ∈ a.watchdogs
  | .reloadVerified verify _ => verify ∈ a.verifies

instance (a : Actor) (m : Msg) : Decidable (a.admits m) :=
  match m with
  | .command _ => isTrue trivial
  | .exited task _ _ => inferInstanceAs (Decidable (task ∈ a.tasks))
  | .restartDue timer => inferInstanceAs (Decidable (timer ∈ a.timers))
  | .readyResult wait _ => inferInstanceAs (Decidable (wait ∈ a.readies))
  | .reloadDeadline watchdog => inferInstanceAs (Decidable (watchdog ∈ a.watchdogs))
  | .reloadVerified verify _ => inferInstanceAs (Decidable (verify ∈ a.verifies))

/-- A task has ended and a timer is spent before its report is handled, and
a child's word that it is ready is on record. -/
def receive (a : Actor) : Msg → Actor
  | .exited task _ _ =>
    { a with tasks := a.tasks.erase task, trace := .exited task.serial :: a.trace }
  | .restartDue timer => { a with timers := a.timers.erase timer }
  | .readyResult wait .ready => { a with trace := .ready wait.id :: a.trace }
  | _ => a

/-- A wait, a watchdog and a probe are taken off once their report has
been handled. No handler reads them, so the order is not observable. -/
def forget (a : Actor) : Msg → Actor
  | .readyResult wait _ => { a with readies := a.readies.erase wait }
  | .reloadDeadline watchdog => { a with watchdogs := a.watchdogs.erase watchdog }
  | .reloadVerified verify _ => { a with verifies := a.verifies.erase verify }
  | _ => a

/-- The handler each message is given to. -/
def handle (w : World) (a : Actor) : Msg → Actor
  | .command command => a.handleCommand w command
  | .exited task outcome oomKilled => a.handleExited w task.id outcome oomKilled
  | .restartDue timer => a.handleRestartDue w timer.id timer.epoch
  | .readyResult wait readiness => a.handleReadyResult w wait.id wait.epoch readiness
  | .reloadDeadline watchdog => a.handleReloadDeadline watchdog.name watchdog.stamp
  | .reloadVerified verify readiness => a.handleReloadVerified w verify.name verify.newId readiness

/-- One turn of the loop: the message is taken, handled, and the marks of
apps nobody holds any more are pruned. -/
def turn (w : World) (m : Msg) (a : Actor) : Actor :=
  (((a.receive m).handle w m).forget m).pruneDisabled

/-- The processes ever started, newest first. -/
def spawnedTasks (a : Actor) : List Task := a.trace.filterMap Effect.started

/-- The timer of a slot's latest wait. -/
def lastWait (a : Actor) (id : ℕ) : Option ℕ := a.trace.findSome? (Effect.armed id)

/-- Whether the life `task` has ended. -/
def hasExited (a : Actor) (task : ℕ) : Bool := a.trace.any (Effect.ends task)

/-- How many kills the life `task` was sent. -/
def killsOf (a : Actor) (task : ℕ) : ℕ := a.trace.countP (Effect.kills task)

/-- How many answers went out on the reply channel `tag`. -/
def repliesTo (a : Actor) (tag : ℕ) : ℕ := a.trace.countP (Effect.answers tag)

/-- The loop taking one message. -/
def Step (a : Actor) (e : World × Msg) (a' : Actor) : Prop :=
  a.running = true ∧ a.admits e.2 ∧ a' = a.turn e.1 e.2

end Actor

end Supervisor

end Shep
