import Mathlib.Data.List.Sort
import Mathlib.Tactic.Linarith

/-!
# Supervisor — the values the actor holds

The data of `shep-daemon`'s supervisor: an app's config, one registered
instance (`SheepSlot`), a reload in flight (`ReloadJob`), a parked reply
(`PendingReply`), and the pure decisions made on them. Durations and
instants are milliseconds in `ℕ`; ids, epochs and stamps are `ℕ` as
well, since none of them is ever decremented or wraps in a daemon's life.
-/

namespace Shep

namespace Supervisor

/-! ## Configuration -/

/-- The fields of `AppConfig` the supervisor decides on. `listen`, `env`
and `dogs` keep the source's key/value shape. -/
structure AppConfig where
  name : String
  instances : ℕ := 1
  fold : Option String := none
  user : Option String := none
  group : Option String := none
  env : List (String × String) := []
  dogs : List (String × String) := []
  autorestart : Bool := true
  stopExitCodes : List ℤ := []
  minUptime : ℕ := 1000
  maxRestarts : ℕ := 16
  restartDelay : Option ℕ := none
  expBackoffRestartDelay : Option ℕ := some 100
  killTimeout : ℕ := 1600
  listenTimeout : ℕ := 3000
  gracefulTimeout : ℕ := 8000
  maxMemory : Option ℕ := none
  waitReady : Bool := false
  reusePort : Bool := false
  listen : List (String × String) := []
  readinessProbe : Option String := none
  deriving Repr, DecidableEq

/-- `SANDBOX_DOG`: the adopted dog that launches a sheep holding a table
under this key. -/
def sandboxDog : String := "sandbox"

/-- `is_sandboxed`: the app holds a `dogs.sandbox` table. -/
def AppConfig.isSandboxed (app : AppConfig) : Bool :=
  app.dogs.any fun table => table.1 == sandboxDog

/-- Where a dog came from. -/
inductive DogSource where
  | builtIn
  | adopted (path : String)
  deriving Repr, DecidableEq

/-- A resolved `user`/`group` pair. -/
structure Credentials where
  uid : ℕ
  gid : ℕ
  deriving Repr, DecidableEq

/-- The identity an entry's next spawn runs under. -/
inductive SpawnIdentity where
  | resolved (credentials : Option Credentials)
  | unresolved
  deriving Repr, DecidableEq

/-- `ProcStatus`. -/
inductive ProcStatus where
  | starting
  | online
  | stopping
  | stopped
  | errored
  | waitingRestart
  deriving Repr, DecidableEq

/-- `ReadinessSource`: what says an app is ready. -/
inductive ReadinessSource where
  | channel
  | probe (target : String)
  | heuristic
  deriving Repr, DecidableEq

/-- `ReadinessSource::of_normalized`: `wait_ready` wins over a probe. -/
def ReadinessSource.of (config : AppConfig) : ReadinessSource :=
  if config.waitReady then .channel
  else match config.readinessProbe with
    | some target => .probe target
    | none => .heuristic

/-- Whether a spawn of `config` waits for a readiness signal. -/
def AppConfig.gated (config : AppConfig) : Bool :=
  match ReadinessSource.of config with
  | .heuristic => false
  | _ => true

/-- `Readiness`: how a readiness wait ended. -/
inductive Readiness where
  | ready
  | timedOut
  deriving Repr, DecidableEq

/-! ## The restart budget and the exit decision -/

/-- `RestartBudget`: consecutive unstable exits. -/
structure RestartBudget where
  unstableCount : ℕ := 0
  deriving Repr, DecidableEq

namespace RestartBudget

def noteFailedStart (b : RestartBudget) : RestartBudget :=
  { b with unstableCount := b.unstableCount + 1 }

def noteExit (b : RestartBudget) (uptime minUptime : ℕ) : RestartBudget :=
  if minUptime ≤ uptime then { b with unstableCount := 0 } else b.noteFailedStart

def exhausted (b : RestartBudget) (maxRestarts : ℕ) : Bool :=
  decide (maxRestarts ≤ b.unstableCount)

def reset (b : RestartBudget) : RestartBudget :=
  { b with unstableCount := 0 }

end RestartBudget

/-- One step of the backoff: `min (d * 3 / 2) 15000`. -/
def backoffStep (d : ℕ) : ℕ := min (d * 3 / 2) 15000

/-- `restart_delay`: a fixed delay wins, a stable exit gets none, and an
unstable one steps the backoff `consecutiveUnstable - 1` times. -/
def restartDelay (app : AppConfig) (consecutiveUnstable : ℕ) : Option ℕ :=
  match app.restartDelay with
  | some fixed => some fixed
  | none =>
    if consecutiveUnstable = 0 then none
    else match app.expBackoffRestartDelay with
      | some initial => some (backoffStep^[consecutiveUnstable - 1] initial)
      | none => none

/-- `ExitOutcome`. -/
structure ExitOutcome where
  code : Option ℤ
  signal : Option ℤ
  deriving Repr, DecidableEq

/-- `Decision`: what an exit becomes. -/
inductive Decision where
  | restart (delay : Option ℕ)
  | cleanStop
  | errored
  | sandboxRefused
  deriving Repr, DecidableEq

/-- `is_sandbox_refusal`: a sandboxed app that exited with 125. -/
def isSandboxRefusal (app : AppConfig) (code : Option ℤ) : Bool :=
  app.isSandboxed && code == some 125

/-- Whether `code` is one of the app's `stop_exit_codes`; a signal exit
never is. -/
def stopsOn (app : AppConfig) (code : Option ℤ) : Bool :=
  match code with
  | some c => app.stopExitCodes.contains c
  | none => false

/-- `decide_on_exit`, with the budget it leaves behind. -/
def decideOnExit (app : AppConfig) (budget : RestartBudget) (uptime : ℕ) (exit : ExitOutcome)
    (manualStop oomKilled : Bool) : Decision × RestartBudget :=
  if manualStop then (.cleanStop, budget)
  else if isSandboxRefusal app exit.code then (.sandboxRefused, budget)
  else if stopsOn app exit.code then (.cleanStop, budget)
  else if !app.autorestart then (.cleanStop, budget)
  else
    let budget := if oomKilled then budget.noteFailedStart
      else budget.noteExit uptime app.minUptime
    if budget.exhausted app.maxRestarts then (.errored, budget)
    else (.restart (restartDelay app budget.unstableCount), budget)

/-! ## Manual commands -/

/-- `ManualKind`. -/
inductive ManualKind where
  | stop
  | restart
  | delete
  deriving Repr, DecidableEq

/-- `CommandOrigin`: who asked. -/
inductive CommandOrigin where
  | operator
  | automatic
  deriving Repr, DecidableEq

/-- `PendingManual`: the command that owns a sheep's next exit. -/
structure PendingManual where
  kind : ManualKind
  origin : CommandOrigin
  deriving Repr, DecidableEq

/-- `LadderCap`: which of an app's two ladder caps a stop runs under. -/
inductive LadderCap where
  | stop
  | drain
  deriving Repr, DecidableEq

/-- `LadderCap::of`. -/
def LadderCap.of (cap : LadderCap) (app : AppConfig) : ℕ :=
  match cap with
  | .stop => app.killTimeout
  | .drain => app.gracefulTimeout

/-! ## Slots -/

/-- `ReloadState`: which half of a swap an entry is, if either. -/
inductive ReloadState where
  | none
  | drainee (newId : Option ℕ)
  | replacement
  deriving Repr, DecidableEq

/-- `ProcessEntry`. The id is the key the slot is stored under, and the
log paths are left out: no modelled function reads them. -/
structure ProcessEntry where
  spec : AppConfig
  pending : Option AppConfig := none
  pendingReidentifies : Bool := false
  overridden : List String := []
  inst : ℕ := 0
  status : ProcStatus
  pid : Option ℕ := none
  restarts : ℕ := 0
  startedAt : Option ℕ := none
  budget : RestartBudget := {}
  reload : ReloadState := .none
  credentials : SpawnIdentity := .unresolved
  dog : Option DogSource := none
  lastExit : Option ExitOutcome := none
  spawnFailure : Option String := none
  deriving Repr, DecidableEq

/-- `SheepSlot`: one registered instance. `ctl` names the sheep task
reading the control mailbox, so two lives of one id are told apart. The
other mailboxes are set and cleared with it and are left out. -/
structure SheepSlot where
  entry : ProcessEntry
  ctl : Option ℕ := none
  manual : Option PendingManual := none
  pendingDelete : Bool := false
  epoch : ℕ := 0
  readyFailed : Bool := false
  deriving Repr, DecidableEq

namespace SheepSlot

/-- The app this slot is an instance of. -/
def name (slot : SheepSlot) : String := slot.entry.spec.name

/-- `clear_lifecycle`: the slot lands at `status` with nothing attached. -/
def clearLifecycle (slot : SheepSlot) (status : ProcStatus) : SheepSlot :=
  { slot with
    entry := { slot.entry with
      status := status, pid := none, startedAt := none, lastExit := none }
    ctl := none }

/-- The config the next child of this slot is spawned from. -/
def intendedSpec (slot : SheepSlot) : AppConfig :=
  slot.entry.pending.getD slot.entry.spec

/-- Sets the lifecycle status. -/
def setStatus (slot : SheepSlot) (status : ProcStatus) : SheepSlot :=
  { slot with entry := { slot.entry with status := status } }

/-- Sets the reload marker. -/
def setReload (slot : SheepSlot) (reload : ReloadState) : SheepSlot :=
  { slot with entry := { slot.entry with reload := reload } }

end SheepSlot

/-- `reload_eligible`: `Online`, or left up by a failed reload. -/
def reloadEligible (slot : SheepSlot) : Bool :=
  slot.entry.status == .online || slot.readyFailed

/-- `restored_status`: where an undone swap leaves its drainee. -/
def restoredStatus (slot : SheepSlot) : ProcStatus :=
  if slot.readyFailed then .starting else .online

/-- `is_at_rest`: a dog that has never had a process. -/
def isAtRest (entry : ProcessEntry) : Bool :=
  entry.dog.isSome && entry.status == .stopped && entry.lastExit.isNone

/-! ## Reload jobs -/

/-- `ReloadMode`. -/
inductive ReloadMode where
  | overlap
  | serial
  deriving Repr, DecidableEq

/-- `ReloadMode::of`: only a probed app that cannot share its port drains
first. -/
def ReloadMode.of (config : AppConfig) : ReloadMode :=
  match ReadinessSource.of config with
  | .probe _ => if !config.reusePort && config.listen.isEmpty then .serial else .overlap
  | _ => .overlap

/-- `ReloadPhase`. -/
inductive ReloadPhase where
  | drainFirst
  | awaitReady
  | drainOld
  | verify
  deriving Repr, DecidableEq

/-- `ReloadSwap`. -/
structure ReloadSwap where
  oldId : ℕ
  newId : Option ℕ
  phase : ReloadPhase
  deriving Repr, DecidableEq

/-- `ReloadJob`: one app's reload in flight. -/
structure ReloadJob where
  queue : List ℕ
  mode : ReloadMode
  swap : ReloadSwap
  deadline : ℕ := 0
  deriving Repr, DecidableEq

/-- Whether `id` is either half of the job's swap. -/
def ReloadJob.names (job : ReloadJob) (id : ℕ) : Bool :=
  job.swap.oldId == id || job.swap.newId == some id

/-- `RELOAD_DEADLINE_SLACK`, in milliseconds. -/
def reloadDeadlineSlack : ℕ := 5000

/-- `swap_budget`: how long one swap is given. -/
def swapBudget (config : AppConfig) : ℕ :=
  config.listenTimeout + config.gracefulTimeout + reloadDeadlineSlack

/-! ## Selectors and rows -/

/-- `ProcessSelector`. A compiled pattern is the set of names it accepts. -/
inductive ProcessSelector where
  | all
  | id (want : ℕ)
  | name (want : String)
  | regex (isMatch : String → Bool)
  | fold (want : String)
  | inst (name : String) (slot : ℕ)

namespace ProcessSelector

/-- `is_exact`: the selector names an entry rather than sweeping. -/
def isExact : ProcessSelector → Bool
  | .id _ | .name _ | .inst _ _ => true
  | .all | .regex _ | .fold _ => false

/-- `matches`. -/
def hits (selector : ProcessSelector) (name : String) (id : ℕ) (fold : Option String)
    (inst : ℕ) : Bool :=
  match selector with
  | .all => true
  | .id want => want == id
  | .name want => want == name
  | .regex isMatch => isMatch name
  | .fold want => fold == some want
  | .inst want slot => want == name && inst == slot

end ProcessSelector

/-- `Sweep`: which side of the disabled mark a wildcard reaches. -/
inductive Sweep where
  | enabled
  | disabled
  | any
  deriving Repr, DecidableEq

/-- `Sweep::reaches`. -/
def Sweep.reaches (sweep : Sweep) (disabled : Bool) : Bool :=
  match sweep with
  | .enabled => !disabled
  | .disabled => disabled
  | .any => true

/-- `ProcessInfo`, as far as a reply's order and a roll's writer read it. -/
structure ProcessInfo where
  id : ℕ
  name : String
  inst : ℕ
  status : ProcStatus
  pid : Option ℕ
  restarts : ℕ
  dog : Option DogSource
  lastExit : Option ExitOutcome
  spawnFailure : Option String
  reloadDeadlineMs : Option ℕ := none
  disabled : Option Bool := none
  deriving Repr, DecidableEq

/-- `to_info`. -/
def toInfo (id : ℕ) (slot : SheepSlot) : ProcessInfo where
  id := id
  name := slot.name
  inst := slot.entry.inst
  status := slot.entry.status
  pid := slot.entry.pid
  restarts := slot.entry.restarts
  dog := slot.entry.dog
  lastExit := slot.entry.lastExit
  spawnFailure := slot.entry.spawnFailure

/-- The order of a flock listing: name, then instance slot, then id. -/
def ProcessInfo.le (a b : ProcessInfo) : Bool :=
  a.name < b.name ||
    (a.name == b.name && (a.inst < b.inst || (a.inst == b.inst && a.id ≤ b.id)))

/-- `sort_flock`. -/
def sortFlock (rows : List ProcessInfo) : List ProcessInfo :=
  rows.insertionSort fun a b => a.le b

/-! ## Replies -/

/-- `SupervisorError`: the refusals of the modelled commands. -/
inductive SupervisorError where
  | notFound
  | spawnFailed (message : String)
  | cannotStart (message : String)
  | reloadInFlight (name : String)
  | invalidScale (message : String)
  | isADog (message : String)
  | invalidEnv (message : String)
  | invalidField (message : String)
  | overrides (message : String)
  | disabled (name : String)
  | noSuchSheep (name : String)
  | envChanged (keys : String)
  | engineStopped
  deriving Repr, DecidableEq

/-- `ReplyKind`: which payload shape a deferred reply takes. -/
inductive ReplyKind where
  | info
  | ids
  | shutdown
  deriving Repr, DecidableEq

/-- `PendingReply`: one command's aggregation, answered once `remaining`
is empty. `tag` names the reply channel. -/
structure PendingReply where
  tag : ℕ
  remaining : List ℕ
  results : List ProcessInfo
  kind : ReplyKind
  deriving Repr, DecidableEq

/-- `Scaled`: what a completed scale produced. -/
structure Scaled where
  instances : List ProcessInfo
  app : AppConfig
  requested : ℕ
  shortfall : Option String
  deriving Repr, DecidableEq

/-- `Scaled::achieved`. -/
def Scaled.achieved (scaled : Scaled) : ℕ := scaled.instances.length

/-! ## Instance slots -/

/-- The first slot at or above `candidate` that is not taken. The search
is bounded by the number of taken slots. -/
def nextFree (existing : List ℕ) : ℕ → ℕ → ℕ
  | 0, candidate => candidate
  | fuel + 1, candidate =>
    if existing.contains candidate then nextFree existing fuel (candidate + 1) else candidate

/-- `instance_slots`, from the candidate the scan has reached. -/
def instanceSlotsFrom (existing : List ℕ) : ℕ → ℕ → List ℕ
  | _, 0 => []
  | candidate, count + 1 =>
    let free := nextFree existing existing.length candidate
    free :: instanceSlotsFrom existing (free + 1) count

/-- `instance_slots`: the `count` lowest free slots. -/
def instanceSlots (existing : List ℕ) (count : ℕ) : List ℕ :=
  instanceSlotsFrom existing 0 count

end Supervisor

end Shep
