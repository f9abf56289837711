import Shep.Common.Run
import Shep.Supervisor.Model.Run

/-!
# Supervisor — a turn as a sequence of moves

Every handler is a composition of a few dozen kinds of write. `Move`
lists them once, each with what the code has checked before it makes that
write, and `Inv` (next module) is proved about moves rather than about
handlers. A move is relative to the turn it is part of: `Turn` holds the
state the turn began in, the message and the world's answers.

`Hole` says what a handler is in the middle of: an exit whose slot has
been emptied and not yet settled, or a back-off timer being honoured.
-/

namespace Shep

namespace Supervisor

/-- The turn a move is part of. -/
structure Turn where
  before : Actor
  world : World
  msg : Msg

/-- What the handler is in the middle of. An exit keeps the slot as the
exit found it, its markers included. -/
inductive Hole where
  | none
  | exiting (id : ℕ) (taken : SheepSlot)
  | due (id : ℕ)

/-- A state inside a turn. -/
structure Point where
  hole : Hole
  actor : Actor

/-- The hole is not `id`'s exit. -/
def Hole.Spares (x : Hole) (id : ℕ) : Prop := ∀ taken, x ≠ .exiting id taken

theorem Hole.none_spares (id : ℕ) : Hole.none.Spares id := by simp [Hole.Spares]

theorem Hole.due_spares (id j : ℕ) : (Hole.due j).Spares id := by simp [Hole.Spares]

namespace SheepSlot

/-- Two slots that the lifecycle cannot tell apart: an edit of the config,
the budget or the identity, under the same app. -/
structure Agrees (s s' : SheepSlot) : Prop where
  name : s'.name = s.name
  inst : s'.entry.inst = s.entry.inst
  dog : s'.entry.dog = s.entry.dog
  parked : ∀ p, s'.entry.pending = some p → p.name = s'.name
  unparked : s'.entry.pending = none → s'.entry.pendingReidentifies = false
  status : s'.entry.status = s.entry.status
  pid : s'.entry.pid = s.entry.pid
  startedAt : s'.entry.startedAt = s.entry.startedAt
  reload : s'.entry.reload = s.entry.reload
  ctl : s'.ctl = s.ctl
  manual : s'.manual = s.manual
  pendingDelete : s'.pendingDelete = s.pendingDelete
  epoch : s'.epoch = s.epoch
  readyFailed : s'.readyFailed = s.readyFailed

/-- `s'` is `s` landed at rest in `status`, with no process. -/
structure RestsAs (status : ProcStatus) (s s' : SheepSlot) : Prop where
  name : s'.name = s.name
  inst : s'.entry.inst = s.entry.inst
  dog : s'.entry.dog = s.entry.dog
  parked : ∀ p, s'.entry.pending = some p → p.name = s'.name
  unparked : s'.entry.pending = none → s'.entry.pendingReidentifies = false
  status : s'.entry.status = status
  pid : s'.entry.pid = none
  startedAt : s'.entry.startedAt = none
  reload : s'.entry.reload = s.entry.reload
  ctl : s'.ctl = none
  manual : s'.manual = s.manual
  pendingDelete : s'.pendingDelete = s.pendingDelete
  epoch : s'.epoch = s.epoch
  readyFailed : s'.readyFailed = s.readyFailed

/-- A slot just registered, running the task `ctl` or none. -/
structure Fresh (ctl : Option ℕ) (s : SheepSlot) : Prop where
  parked : s.entry.pending = none
  unparked : s.entry.pendingReidentifies = false
  pid : s.entry.pid.isSome = ctl.isSome
  startedAt : s.entry.startedAt.isSome = ctl.isSome
  reload : s.entry.reload = .none
  ctl_eq : s.ctl = ctl
  manual : s.manual = none
  pendingDelete : s.pendingDelete = false
  epoch : s.epoch = 0
  readyFailed : s.readyFailed = false

/-- `s'` is `s` with a new process under the same id. -/
structure RelaunchesAs (task : ℕ) (s s' : SheepSlot) : Prop where
  name : s'.name = s.name
  inst : s'.entry.inst = s.entry.inst
  dog : s'.entry.dog = s.entry.dog
  parked : ∀ p, s'.entry.pending = some p → p.name = s'.name
  unparked : s'.entry.pending = none → s'.entry.pendingReidentifies = false
  status : s'.entry.status = .starting ∨ s'.entry.status = .online
  pid : s'.entry.pid.isSome = true
  startedAt : s'.entry.startedAt.isSome = true
  reload : s'.entry.reload = s.entry.reload
  ctl : s'.ctl = some task
  manual : s'.manual = s.manual
  pendingDelete : s'.pendingDelete = s.pendingDelete
  epoch : s'.epoch = s.epoch + 1
  readyFailed : s'.readyFailed = false

/-- `s'` is a replacement of `s`, running `task`. -/
structure ReplacesAs (task : ℕ) (s s' : SheepSlot) : Prop where
  name : s'.name = s.name
  inst : s'.entry.inst = s.entry.inst
  dog : s'.entry.dog = s.entry.dog
  parked : s'.entry.pending = none
  unparked : s'.entry.pendingReidentifies = false
  status : s'.entry.status = .starting
  pid : s'.entry.pid.isSome = true
  startedAt : s'.entry.startedAt.isSome = true
  reload : s'.entry.reload = .replacement
  ctl : s'.ctl = some task
  manual : s'.manual = none
  pendingDelete : s'.pendingDelete = false
  epoch : s'.epoch = 0
  readyFailed : s'.readyFailed = false

/-- `s` is instance `inst` of `app`, to be spawned under `credentials`. -/
structure Seats (app : AppConfig) (inst : ℕ) (credentials : Option Credentials)
    (dog : Option DogSource) (s : SheepSlot) : Prop where
  spec : s.entry.spec = app
  inst : s.entry.inst = inst
  credentials : s.entry.credentials = .resolved credentials
  dog : s.entry.dog = dog

theorem Seats.name {s : SheepSlot} {app : AppConfig} {inst : ℕ} {credentials : Option Credentials}
    {dog : Option DogSource} (h : s.Seats app inst credentials dog) : s.name = app.name := by
  rw [SheepSlot.name, h.spec]

/-- The process of `s` is the child `pid`, spawned under `credentials`. -/
structure RunsAs (pid : ℕ) (credentials : Option Credentials) (s : SheepSlot) : Prop where
  pid_eq : s.entry.pid = some pid
  credentials_eq : s.entry.credentials = .resolved credentials

end SheepSlot

/-- The host's users and groups, asked by name. -/
abbrev Directory := Option String → Option String → Except String (Option Credentials)

/-- Every identity this world resolves is looked up in `res`. -/
def World.Resolves (w : World) (res : Directory) : Prop :=
  ∀ app : AppConfig, w.resolve app = res app.user app.group

namespace SheepSlot

/-- The identity a slot has resolved is its stored config's, and a parked
config that names another says so. -/
structure Identified (res : Directory) (s : SheepSlot) : Prop where
  stored : ∀ credentials, s.entry.credentials = .resolved credentials →
    res s.entry.spec.user s.entry.spec.group = .ok credentials
  parked : ∀ p, s.entry.pending = some p → s.entry.pendingReidentifies = false →
    p.user = s.entry.spec.user ∧ p.group = s.entry.spec.group

/-- `s'` carries on from `s`: it is spawned from the same config, under an
identity that still matches it. -/
structure Heir (w : World) (s s' : SheepSlot) : Prop where
  intended : s'.intendedSpec = s.intendedSpec
  identified : ∀ res, w.Resolves res → s.Identified res → s'.Identified res

end SheepSlot

namespace Turn

/-- The apps an `enable` or a dog's start takes the mark off. -/
def Enables (c : Turn) (n : String) : Prop :=
  match c.msg with
  | .command (.enable selector) =>
    ∃ id ∈ c.before.reachedIds selector .disabled, ∃ s, c.before.sheep[id]? = some s ∧ s.name = n
  | .command (.startDog app _) => app.config.name = n
  | _ => False

/-- The ids a restart or an enable reaches. -/
def Restarts (c : Turn) (id : ℕ) : Prop :=
  match c.msg with
  | .command (.restart selector _) => id ∈ c.before.matchingIds selector
  | .command (.enable _) => ∃ s, c.before.sheep[id]? = some s ∧ c.Enables s.name
  | _ => False

/-- The apps a disable reaches. -/
def Disables (c : Turn) (n : String) : Prop :=
  match c.msg with
  | .command (.disable selector) =>
    ∃ id ∈ c.before.reachedIds selector .enabled, ∃ s, c.before.sheep[id]? = some s ∧ s.name = n
  | .command (.disableDog name) => name = n
  | _ => False

/-- The apps a start or an add names. -/
def Adds (c : Turn) (n : String) : Prop :=
  match c.msg with
  | .command (.start apps _ _) => n ∈ apps.map AppConfig.name
  | .command (.registerAtRest apps _) => n ∈ apps.map AppConfig.name
  | .command (.registerDogsAtRest dogs _) => n ∈ dogs.map fun dog => dog.1.name
  | .command (.startDog app _) => app.config.name = n
  | _ => False

/-- The configs a start or an add registers sheep from. -/
def Enrols (c : Turn) (app : AppConfig) : Prop :=
  match c.msg with
  | .command (.start apps _ _) => app ∈ apps
  | .command (.registerAtRest apps _) => app ∈ apps
  | _ => False

/-- Where a slot registered from a config of its own came from. -/
structure Founds (c : Turn) (s : SheepSlot) : Prop where
  enrolled : s.entry.dog = none → c.Enrols s.entry.spec
  identified : ∀ res, c.world.Resolves res → s.Identified res

/-- The apps whose stored or parked config the message may write. -/
def Configures (c : Turn) (n : String) : Prop :=
  match c.msg with
  | .command (.scale name _) => name = n
  | .command (.applyConfig apps _) => n ∈ apps.map fun app => app.config.name
  | .command (.setSheepEnv name _ _) => name = n
  | .command (.setSheepEnvBatch name _ _ _) => name = n
  | .command (.copySheepEnv _ target _ _ _ _) => target = n
  | .command (.setSheepField name _ _) => name = n
  | .command (.resetSheepField name _) => name = n
  | .command (.setSheepDogSettings name _ _) => name = n
  | _ => False

/-- The apps a scale or a load names. -/
def Scales (c : Turn) (n : String) : Prop :=
  match c.msg with
  | .command (.scale name _) => name = n
  | .command (.applyConfig apps _) => n ∈ apps.map fun app => app.config.name
  | _ => False

/-- The apps the turn may register an instance of: a scale only adds to an
app with an instance that is there to stay. -/
def Registers (c : Turn) (a : Actor) (n : String) : Prop :=
  c.Adds n ∨ c.Scales n ∧ ∃ (id : ℕ) (s : SheepSlot), a.sheep[id]? = some s ∧ s.name = n ∧
    s.pendingDelete = false ∧ s.entry.dog = none

/-- The ids a reload of `n` has left to take in this turn: the command's
own, when the app has no job, or its job's. -/
def Queued (c : Turn) (n : String) (id : ℕ) : Prop :=
  (∃ selector, c.msg = .command (.reload selector) ∧ id ∈ c.before.matchingIds selector ∧
    c.before.reloads[n]? = none) ∨
    ∃ job : ReloadJob, c.before.reloads[n]? = some job ∧ id ∈ job.queue

/-- `id` is the replacement of a swap the turn finds uncommitted. -/
def Uncommitted (c : Turn) (id : ℕ) : Prop :=
  ∃ (n : String) (job : ReloadJob), c.before.reloads[n]? = some job ∧
    job.swap.phase = .awaitReady ∧ job.swap.newId = some id

/-- The message is a command, and no reload. -/
def Orders (c : Turn) : Prop :=
  ∃ command, c.msg = .command command ∧ ∀ selector, command ≠ .reload selector

/-- Who may claim `id`: a command that is no reload, a reload's drain, or the
end of an uncommitted swap, which takes its replacement with it. -/
def Claims (c : Turn) (cap : LadderCap) (id : ℕ) : Prop :=
  c.Orders ∨ cap = .drain ∨ c.Uncommitted id

/-- The message reports `id`'s replacement ready. -/
def ReportsReady (c : Turn) (id : ℕ) : Prop :=
  ∃ wait, c.msg = .readyResult wait .ready ∧ wait.id = id

/-! ## The turns on which the code departs from what it promises -/

end Turn

/-- `handle_scale` accepts this count as a scale-up, and the host accepts
one of the spawns it asks for. -/
def Actor.ScalesUp (w : World) (name : String) (count : ℕ) (a : Actor) : Prop :=
  ∃ firstId first rescaled,
    (a.slotsOfName name).head?.map Prod.snd = some firstId ∧
    a.sheep[firstId]? = some first ∧ first.entry.dog = none ∧
    (∀ e ∈ a.slotsOfName name, ∀ s, a.sheep[e.2]? = some s → s.pendingDelete = false) ∧
    Actor.tryWithCount w first.entry.spec count = .ok rescaled ∧
    (a.slotsOfName name).length < count ∧ name ∉ a.disabled ∧
    (∃ credentials, first.credentialsForSpawn w = .ok credentials) ∧
    ∃ k < count - (a.slotsOfName name).length, ∃ inst pid,
      a.assembleForSpawn w (a.nextId + k) rescaled inst = .ok () ∧
      w.spawn (a.nextId + k) rescaled = .ok pid

namespace Turn

/-- A scale-up lands after the shutdown began. -/
def ScalesUpWhileDown (c : Turn) : Prop :=
  c.before.shuttingDown = true ∧
    ∃ name count, c.msg = .command (.scale name count) ∧ c.before.ScalesUp c.world name count

/-- The job whose post-drain probe this message reports, as the turn
finds it. -/
def Verifies (c : Turn) (v : VerifyWait) (readiness : Readiness) : Prop :=
  c.msg = .reloadVerified v readiness ∧
    ∃ job : ReloadJob, c.before.reloads[v.name]? = some job ∧ job.swap.newId = some v.newId ∧
      job.swap.phase = .verify

/-- A probe times out for a replacement that is registered and has no
process. -/
def DemotesDead (c : Turn) : Prop :=
  ∃ v, c.Verifies v .timedOut ∧ ∃ s, c.before.sheep[v.newId]? = some s ∧ s.ctl = none

/-- A probe is answered for a replacement that is no longer registered. -/
def VerifiesGone (c : Turn) : Prop :=
  ∃ v readiness, c.Verifies v readiness ∧ c.before.sheep[v.newId]? = none

/-- A replacement still marked as one exits while `Online`, after the
instance it replaced was reaped. -/
def ExitsServing (c : Turn) : Prop :=
  ∃ (task : Task) (outcome : ExitOutcome) (oomKilled : Bool) (s : SheepSlot) (job : ReloadJob),
    c.msg = .exited task outcome oomKilled ∧
    c.before.sheep[task.id]? = some s ∧ s.entry.reload = .replacement ∧
    s.entry.status = .online ∧ c.before.reloads[s.name]? = some job ∧
    job.swap.newId = some task.id ∧ job.swap.phase ≠ .awaitReady ∧
    c.before.sheep[job.swap.oldId]? = none

/-- `id` is deregistered while a job goes on naming it as its replacement:
a delete reaches it stopped, or its own exit deletes it after the commit. -/
def DropsReplacement (c : Turn) (id : ℕ) : Prop :=
  ∃ (n : String) (job : ReloadJob) (s : SheepSlot), c.before.reloads[n]? = some job ∧
    job.swap.newId = some id ∧ c.before.sheep[id]? = some s ∧
    ((∃ selector, c.msg = .command (.delete selector) ∧ id ∈ c.before.matchingIds selector ∧
        s.ctl = none) ∨
      ((∃ task outcome oomKilled, c.msg = .exited task outcome oomKilled ∧ task.id = id) ∧
        s.pendingDelete = true ∧ (s.entry.reload ≠ .replacement ∨
          job.swap.phase ≠ .awaitReady ∧ (c.before.sheep[job.swap.oldId]?).isSome = true)))

/-- A restart or an enable reaches a sheep with no process and a timer of
its current epoch in flight, and the respawn it forces is refused for now. -/
def RewaitsManually (c : Turn) (id : ℕ) : Prop :=
  c.Restarts id ∧ ∃ s, c.before.sheep[id]? = some s ∧ s.ctl = none ∧
    (∃ t ∈ c.before.timers, t.id = id ∧ t.epoch = s.epoch) ∧
    1 < s.intendedSpec.maxRestarts ∧
    ∃ err : AssembleError, err.isRetriable = true ∧
      (c.world.assemble s.intendedSpec s.entry.inst = .error err ∨
        c.world.place id s.intendedSpec = .error err)

/-- A dog's start takes over a row of its own app that has no process. -/
def Reseats (c : Turn) (id : ℕ) : Prop :=
  ∃ app source s, c.msg = .command (.startDog app source) ∧ c.before.sheep[id]? = some s ∧
    s.name = app.config.name ∧ s.ctl = none

/-- A dog's start takes over a row whose id a timer still names. -/
def ReseatsTimed (c : Turn) (id : ℕ) : Prop :=
  (∃ app source s, c.msg = .command (.startDog app source) ∧
    c.before.sheep[id]? = some s ∧ s.name = app.config.name) ∧
    ∃ t ∈ c.before.timers, t.id = id

end Turn

/-! ## Moves -/

/-- Who may start a process again under a registered id: an exit claimed
as a restart, the slot's own timer, or a restart that found it at rest. -/
def Hole.Relaunches (x : Hole) (c : Turn) (id : ℕ) (s : SheepSlot) : Prop :=
  match x with
  | .exiting i taken =>
    i = id ∧ (∃ o, taken.manual = some ⟨.restart, o⟩) ∧ taken.pendingDelete = false
  | .due i => i = id ∧ s.entry.status = .waitingRestart
  | .none => c.Restarts id

/-- Why `id` may err or wait: a spawn of an enabled app that this turn
started was refused, or nothing claimed the exit being handled. -/
def Turn.MayFail (c : Turn) (x : Hole) (a : Actor) (id : ℕ) (s : SheepSlot) : Prop :=
  s.name ∉ a.disabled ∧ (x.Relaunches c id s ∨ c.before.nextId ≤ id ∨ c.Enables s.name) ∨
    ∃ taken : SheepSlot, x = .exiting id taken ∧ taken.manual = none

/-- Why a back-off under `id` may start: it is the first timer armed while
its exit or its timer is being handled, no timer of its epoch is in flight,
or the turn is one of those that arm a second. -/
def Turn.MayWait (c : Turn) (x : Hole) (a : Actor) (id epoch : ℕ) : Prop :=
  (∃ taken, x = .exiting id taken) ∧ a.timers = c.before.timers ∨
    x = .due id ∧ (∃ t, c.msg = .restartDue t ∧ a.timers = c.before.timers.erase t) ∨
    (∀ t ∈ a.timers, t.id = id → t.epoch ≠ epoch) ∨ c.RewaitsManually id ∨ c.ReseatsTimed id

/-- The last thing the actor did was to start the drain of `id`. -/
def Actor.Drains (a : Actor) (id : ℕ) : Prop :=
  ∃ name mode swap trace, a.trace = .drains name mode swap :: trace ∧ swap.oldId = id

/-- What an exit leaves in its slot: nothing when a delete was pending,
and a stopped row when an operator's stop owned it. A slot it leaves is
nobody's replacement. -/
def Settles (taken : SheepSlot) (left : Option SheepSlot) : Prop :=
  (taken.pendingDelete = true → left = none) ∧
  ∀ s, left = some s →
    s.entry.reload ≠ .replacement ∧
    (s.ctl = none → s.entry.status = .stopped ∨ s.entry.status = .errored ∨
      s.entry.status = .waitingRestart) ∧
    (∀ k o, taken.manual = some ⟨k, o⟩ → k ≠ .restart → s.ctl = none ∧ s.entry.status = .stopped)

/-- No id but `id` is registered as instance `inst` of the app. -/
def Actor.Spare (a : Actor) (id : ℕ) (name : String) (inst : ℕ) : Prop :=
  ∀ (j : ℕ) (t : SheepSlot), a.sheep[j]? = some t → t.name = name → t.entry.inst = inst → j = id

/-- **One write of a handler**, with what the code has checked before it
makes it. -/
inductive Move (c : Turn) : Point → Point → Prop
  /-- Dog binaries, readiness waits and probes move. -/
  | quiet {x : Hole} {a : Actor} (dogs : List (String × String)) (readies : List ReadyWait)
      (verifies : List VerifyWait) :
      Move c ⟨x, a⟩
        ⟨x, { a with dogBinaries := dogs, readies := readies, verifies := verifies }⟩
  /-- An id is spent. -/
  | bump {x : Hole} {a : Actor} (n : ℕ) :
      a.nextId ≤ n → Move c ⟨x, a⟩ ⟨x, { a with nextId := n }⟩
  /-- A child says it is ready. -/
  | hear {a : Actor} (wait : ReadyWait) :
      Move c ⟨.none, a⟩ ⟨.none, { a with trace := .ready wait.id :: a.trace }⟩
  /-- A drain starts: of a serial swap, or of one whose replacement has said
  it is ready. -/
  | drains {a : Actor} {n : String} {job : ReloadJob} (phase : ReloadPhase) :
      a.reloads[n]? = some job →
      (job.mode = .overlap → ∃ newId, job.swap.newId = some newId ∧ .ready newId ∈ a.trace) →
      Move c ⟨.none, a⟩ ⟨.none, { a with
        trace := .drains n job.mode { job.swap with phase := phase } :: a.trace }⟩
  | answer {x : Hole} {a : Actor} (answer : Answer) :
      answer ≠ .shutdown → Move c ⟨x, a⟩ ⟨x, a.answer answer⟩
  /-- A reply is parked on running sheep. -/
  | park {a : Actor} (remaining : List ℕ) (results : List ProcessInfo) (kind : ReplyKind) :
      remaining ≠ [] →
      (∀ id ∈ remaining, ∃ s, a.sheep[id]? = some s ∧ s.ctl.isSome = true) →
      (kind = .shutdown → a.shuttingDown = true ∧
        ∀ id s, a.sheep[id]? = some s → s.ctl.isSome = true → id ∈ remaining) →
      Move c ⟨.none, a⟩ ⟨.none, a.park remaining results kind⟩
  /-- A shutdown finds nothing running. -/
  | halt {a : Actor} :
      a.shuttingDown = true → (∀ (id : ℕ) (s : SheepSlot), a.sheep[id]? = some s → s.ctl = none) →
      Move c ⟨.none, a⟩ ⟨.none, { a.answer .shutdown with done := true }⟩
  | edit {x : Hole} {a : Actor} {id : ℕ} {s : SheepSlot} (s' : SheepSlot) :
      a.sheep[id]? = some s → s.Agrees s' → (c.Configures s.name ∨ s.Heir c.world s') →
      Move c ⟨x, a⟩ ⟨x, a.setSlot id s'⟩
  | editAll {x : Hole} {a : Actor} (f : SheepSlot → SheepSlot) :
      (∀ (id : ℕ) (s : SheepSlot), a.sheep[id]? = some s → s.Agrees (f s)) →
      (∀ (id : ℕ) (s : SheepSlot), a.sheep[id]? = some s →
        c.Configures s.name ∨ s.Heir c.world (f s)) →
      Move c ⟨x, a⟩ ⟨x, a.mapSlots f⟩
  /-- A sheep with no process lands at rest. Only an enabled app errs. -/
  | rest {x : Hole} {a : Actor} {id : ℕ} {s s' : SheepSlot} {status : ProcStatus} :
      a.sheep[id]? = some s → s.ctl = none → s.RestsAs status s' →
      (status = .stopped ∨ status = .errored ∧ c.MayFail x a id s) → s.Heir c.world s' →
      Move c ⟨x, a⟩ ⟨x, a.setSlot id s'⟩
  /-- A sheep with no process waits out a back-off. -/
  | backOff {x : Hole} {a : Actor} {id : ℕ} {s s' : SheepSlot} (delay : Option ℕ) :
      a.sheep[id]? = some s → s.ctl = none → s.RestsAs .waitingRestart s' →
      c.MayFail x a id s → c.MayWait x a id s.epoch → s.Heir c.world s' →
      Move c ⟨x, a⟩ ⟨x, a.backOff id s' delay⟩
  /-- An instance is registered with no process. -/
  | register {a : Actor} {s : SheepSlot} :
      s.Fresh none → (s.entry.status = .stopped ∨ s.entry.status = .errored ∧ s.name ∉ a.disabled) →
      c.Registers a s.name → (c.Configures s.name ∨ c.Founds s) → a.Spare a.nextId s.name s.entry.inst →
      Move c ⟨.none, a⟩ ⟨.none, { a with nextId := a.nextId + 1 }.setSlot a.nextId s⟩
  /-- An instance is registered with a process. -/
  | launch {a : Actor} {s : SheepSlot} {pid : ℕ} {credentials : Option Credentials} :
      s.Fresh (some a.nextTask) → (s.entry.status = .starting ∨ s.entry.status = .online) →
      s.name ∉ a.disabled → c.Registers a s.name →
      (a.shuttingDown = true → c.ScalesUpWhileDown) → s.RunsAs pid credentials →
      (c.Configures s.name ∨ c.Founds s) → a.Spare a.nextId s.name s.entry.inst →
      Move c ⟨.none, a⟩ ⟨.none, ({ a with nextId := a.nextId + 1 }.startTask a.nextId pid
        s.entry.spec credentials .fresh).setSlot a.nextId s⟩
  /-- A resting dog's row is taken over, with no process. -/
  | reseat {a : Actor} {id : ℕ} {s s' : SheepSlot} :
      a.sheep[id]? = some s → s.ctl = none → s'.Fresh none → s'.entry.status = .errored →
      s'.name = s.name → s.name ∉ a.disabled → a.shuttingDown = false → c.Enables s.name →
      ((∃ t ∈ a.timers, t.id = id) → c.ReseatsTimed id) →
      (s.entry.status = .stopped ∨ s.entry.status = .errored) → c.Founds s' →
      a.Spare id s'.name s'.entry.inst → c.Reseats id →
      Move c ⟨.none, a⟩ ⟨.none, a.setSlot id s'⟩
  /-- A resting dog's row is taken over, with a process. -/
  | reseatLive {a : Actor} {id pid : ℕ} {s s' : SheepSlot} {credentials : Option Credentials} :
      a.sheep[id]? = some s → s.ctl = none → s'.Fresh (some a.nextTask) →
      (s'.entry.status = .starting ∨ s'.entry.status = .online) → s'.name = s.name →
      s.name ∉ a.disabled → a.shuttingDown = false → c.Enables s.name →
      ((∃ t ∈ a.timers, t.id = id) → c.ReseatsTimed id) →
      (s.entry.status = .stopped ∨ s.entry.status = .errored) → s'.RunsAs pid credentials →
      c.Founds s' → a.Spare id s'.name s'.entry.inst → c.Reseats id →
      Move c ⟨.none, a⟩
        ⟨.none, (a.startTask id pid s'.entry.spec credentials .fresh).setSlot id s'⟩
  /-- A registered sheep gets a new process. -/
  | relaunch {x : Hole} {a : Actor} {id pid : ℕ} {s s' : SheepSlot}
      {credentials : Option Credentials} :
      a.sheep[id]? = some s → s.ctl = none → s.RelaunchesAs a.nextTask s' →
      s.name ∉ a.disabled → a.shuttingDown = false → x.Relaunches c id s →
      s'.RunsAs pid credentials → s.Heir c.world s' →
      Move c ⟨x, a⟩ ⟨x, (a.startTask id pid s'.entry.spec credentials .respawn).setSlot id s'⟩
  /-- The first command to reach a sheep owns its next exit. -/
  | claim {x : Hole} {a : Actor} {id : ℕ} {s : SheepSlot} (m : PendingManual) (cap : LadderCap) :
      a.sheep[id]? = some s → s.manual = none →
      (s.ctl.isSome = true ∨ x = .none ∧ m.kind ≠ .delete ∧
        ∃ job : ReloadJob, a.reloads[s.name]? = some job ∧ job.swap.oldId = id) →
      (m.origin = .automatic → m.kind = .restart) →
      (cap = .drain → a.Drains id) → c.Claims cap id →
      Move c ⟨x, a⟩ ⟨x, { a with
        sheep := a.sheep.insert id { s with
          manual := some m, pendingDelete := s.pendingDelete || m.kind == .delete }
        trace := (s.ctl.toList.map fun t => .killed t (cap.of s.entry.spec)) ++
          .claimed id m cap :: a.trace }⟩
  /-- An operator takes the marker off an automatic restart. -/
  | displace {x : Hole} {a : Actor} {id : ℕ} {s : SheepSlot} {held : PendingManual}
      (m : PendingManual) (cap : LadderCap) :
      a.sheep[id]? = some s → s.manual = some held → held.origin = .automatic →
      m.origin = .operator → (m.kind = .delete → s.ctl.isSome = true) →
      (cap = .drain → a.Drains id) → c.Claims cap id →
      Move c ⟨x, a⟩ ⟨x, { a with
        sheep := a.sheep.insert id { s with
          manual := some m, pendingDelete := s.pendingDelete || m.kind == .delete }
        trace := .claimed id m cap :: a.trace }⟩
  /-- A delete reaches a sheep another command already owns. -/
  | doom {x : Hole} {a : Actor} {id : ℕ} {s : SheepSlot} :
      a.sheep[id]? = some s → s.ctl.isSome = true → s.manual.isSome = true →
      Move c ⟨x, a⟩ ⟨x, a.setSlot id { s with pendingDelete := true }⟩
  /-- A disable turns restarts into stops. -/
  | remarkStop {a : Actor} (names : List String) :
      (∀ n ∈ names, c.Disables n) → Move c ⟨.none, a⟩ ⟨.none, a.remark names .restart .stop⟩
  /-- An enable turns stops into restarts. -/
  | remarkRestart {a : Actor} (names : List String) :
      (∀ n ∈ names, n ∉ a.disabled ∧ c.Enables n) → a.shuttingDown = false →
      Move c ⟨.none, a⟩ ⟨.none, a.remark names .stop .restart⟩
  | disable {x : Hole} {a : Actor} (names : List String) :
      Move c ⟨x, a⟩ ⟨x, { a with disabled := names ∪ a.disabled }⟩
  | enable {x : Hole} {a : Actor} (names : List String) :
      (∀ n ∈ names, c.Enables n) → a.shuttingDown = false →
      Move c ⟨x, a⟩ ⟨x, a.clearDisabled names⟩
  /-- A sheep with no process is deregistered. -/
  | deregister {x : Hole} {a : Actor} {id : ℕ} {s : SheepSlot} :
      a.sheep[id]? = some s → s.ctl = none →
      ((∃ (n : String) (job : ReloadJob), a.reloads[n]? = some job ∧ job.swap.newId = some id) →
        c.DropsReplacement id) →
      Move c ⟨x, a⟩ ⟨x, a.removeSlot id⟩
  /-- A task ends: its slot is emptied and waits to be settled. -/
  | exit {a : Actor} {s : SheepSlot} (task : Task) (outcome : ExitOutcome) :
      c.before = a → (∃ outcome oomKilled, c.msg = .exited task outcome oomKilled) →
      task ∈ a.tasks → a.sheep[task.id]? = some s → s.ctl = some task.serial →
      Move c ⟨.none, a⟩ ⟨.exiting task.id s, { a with
        tasks := a.tasks.erase task
        trace := .exited task.serial :: a.trace
        sheep := a.sheep.insert task.id (s.exited outcome) }⟩
  /-- An exit is settled, and the replies waiting on it resolved. -/
  | resolve {a : Actor} {id : ℕ} {taken : SheepSlot} (info : ProcessInfo) :
      Settles taken a.sheep[id]? →
      (∀ (n : String) (job : ReloadJob) (q : Option ℕ), a.reloads[n]? = some job →
        job.swap.oldId = id → taken.entry.reload = .drainee q → a.sheep[id]? = none) →
      (∀ (s : SheepSlot) (q : Option ℕ), a.sheep[id]? = some s → s.entry.reload ≠ .drainee q) →
      (taken.entry.reload = .replacement → (c.Uncommitted id → a.sheep[id]? = none) ∧
        ∀ (n : String) (job : ReloadJob), a.reloads[n]? = some job →
          job.swap.phase = .awaitReady → job.swap.newId ≠ some id) →
      Move c ⟨.exiting id taken, a⟩ ⟨.none, a.resolvePending id info⟩
  /-- A timer is spent. -/
  | expire {a : Actor} (t : RestartTimer) :
      Move c ⟨.none, a⟩ ⟨.none, { a with timers := a.timers.erase t }⟩
  /-- A timer of a waiting slot's current epoch is spent. -/
  | fire {a : Actor} {s : SheepSlot} (t : RestartTimer) :
      c.before = a → c.msg = .restartDue t → t ∈ a.timers → a.sheep[t.id]? = some s →
      s.entry.status = .waitingRestart → s.epoch = t.epoch → s.ctl = none →
      Move c ⟨.none, a⟩ ⟨.due t.id, { a with timers := a.timers.erase t }⟩
  /-- The timer's slot has been dealt with. -/
  | honour {a : Actor} {id : ℕ} : Move c ⟨.due id, a⟩ ⟨.none, a⟩
  /-- An overlapping swap starts. -/
  | beginOverlap {a : Actor} {n : String} {oldId pid : ℕ} {s s' : SheepSlot} {queue : List ℕ}
      {credentials : Option Credentials} :
      a.sheep[oldId]? = some s → s.name = n → Actor.replaceable s = true → n ∉ a.disabled →
      a.shuttingDown = false → a.reloads[n]? = none → s.ReplacesAs a.nextTask s' →
      c.Queued n oldId → (∀ id ∈ queue, c.Queued n id) → (oldId :: queue).Nodup →
      (∀ id ∈ queue, id < a.nextId) →
      (∀ id ∈ queue, ∀ s, a.sheep[id]? = some s → s.name = n) → s'.RunsAs pid credentials →
      s.Heir c.world s' →
      Move c ⟨.none, a⟩ ⟨.none, { a with
        nextId := a.nextId + 1
        sheep := (a.sheep.insert oldId (s.draining (some a.nextId))).insert a.nextId s'
        tasks := ⟨a.nextTask, a.nextId, n, .replacement, pid, s'.entry.spec, credentials⟩ :: a.tasks
        nextTask := a.nextTask + 1
        trace := .spawned ⟨a.nextTask, a.nextId, n, .replacement, pid, s'.entry.spec, credentials⟩ :: a.trace
        reloads := a.reloads.insert n
          ⟨queue, .overlap, ⟨oldId, some a.nextId, .awaitReady⟩, a.nextDeadline⟩
        nextDeadline := a.nextDeadline + 1
        watchdogs := ⟨n, a.nextDeadline⟩ :: a.watchdogs }⟩
  /-- An overlapping swap could not spawn: the drainee is put back. -/
  | putBack {a : Actor} {oldId : ℕ} {s : SheepSlot} :
      a.sheep[oldId]? = some s → Actor.replaceable s = true → a.reloads[s.name]? = none →
      a.shuttingDown = false →
      Move c ⟨.none, a⟩ ⟨.none, a.setSlot oldId
        ((s.setStatus (restoredStatus s)).setReload .none)⟩
  /-- A serial swap starts with its drain. -/
  | beginSerial {a : Actor} {n : String} {oldId : ℕ} {s : SheepSlot} {queue : List ℕ} :
      a.sheep[oldId]? = some s → s.name = n → Actor.replaceable s = true →
      a.shuttingDown = false → a.reloads[n]? = none →
      c.Queued n oldId → (∀ id ∈ queue, c.Queued n id) → (oldId :: queue).Nodup →
      (∀ id ∈ queue, id < a.nextId) →
      (∀ id ∈ queue, ∀ s, a.sheep[id]? = some s → s.name = n) →
      Move c ⟨.none, a⟩ ⟨.none, { a with
        sheep := a.sheep.insert oldId (s.draining none)
        reloads := a.reloads.insert n ⟨queue, .serial, ⟨oldId, none, .drainFirst⟩, a.nextDeadline⟩
        nextDeadline := a.nextDeadline + 1
        watchdogs := ⟨n, a.nextDeadline⟩ :: a.watchdogs }⟩
  /-- A serial swap's drainee has gone: its replacement is spawned. -/
  | serialSpawn {a : Actor} {n : String} {oldId pid : ℕ} {s s' taken : SheepSlot} {job : ReloadJob}
      {credentials : Option Credentials} :
      a.sheep[oldId]? = some s → s.name = n → s.ctl = none → a.reloads[n]? = some job →
      job.swap.phase = .drainFirst → job.swap.oldId = oldId → n ∉ a.disabled →
      s.ReplacesAs a.nextTask s' → s'.RunsAs pid credentials → s.Heir c.world s' →
      Move c ⟨.exiting oldId taken, a⟩ ⟨.exiting oldId taken, { a with
        nextId := a.nextId + 1
        sheep := (a.sheep.insert oldId (s.draining (some a.nextId))).insert a.nextId s'
        tasks := ⟨a.nextTask, a.nextId, n, .replacement, pid, s'.entry.spec, credentials⟩ :: a.tasks
        nextTask := a.nextTask + 1
        trace := .spawned ⟨a.nextTask, a.nextId, n, .replacement, pid, s'.entry.spec, credentials⟩ :: a.trace
        reloads := a.reloads.insert n { job with
          swap := { job.swap with newId := some a.nextId, phase := .awaitReady }
          deadline := a.nextDeadline }
        nextDeadline := a.nextDeadline + 1
        watchdogs := ⟨n, a.nextDeadline⟩ :: a.watchdogs }⟩
  /-- A serial swap's spawn failed with its drainee marked. -/
  | scratch {a : Actor} {oldId newId : ℕ} {s taken : SheepSlot} :
      a.sheep[oldId]? = some s → s.ctl = none → s.entry.reload ≠ .replacement →
      (∀ (n : String) (job : ReloadJob), a.reloads[n]? = some job → job.swap.newId ≠ some oldId) →
      Move c ⟨.exiting oldId taken, a⟩
        ⟨.exiting oldId taken, a.setSlot oldId (s.draining (some newId))⟩
  /-- The replacement is serving, or the drainee is gone: no way back. -/
  | commit {x : Hole} {a : Actor} {n : String} {job : ReloadJob} {newId : ℕ} :
      a.reloads[n]? = some job → job.swap.newId = some newId →
      (∀ s, a.sheep[newId]? = some s → s.entry.status ≠ .starting ∨
        a.sheep[job.swap.oldId]? = none) →
      (c.ReportsReady newId ∨ a.sheep[job.swap.oldId]? = none) →
      (∀ s, a.sheep[job.swap.oldId]? = some s → s.manual.isSome = true) →
      Move c ⟨x, a⟩ ⟨x, { a with
        reloads := a.reloads.insert n { job with swap := { job.swap with phase := .drainOld } } }⟩
  /-- A drained overlap is asked again. -/
  | verify {a : Actor} {n : String} {job : ReloadJob} {newId : ℕ} {s : SheepSlot} :
      a.reloads[n]? = some job → job.swap.newId = some newId → a.sheep[newId]? = some s →
      s.entry.status = .online → a.sheep[job.swap.oldId]? = none → job.mode = .overlap →
      Move c ⟨.none, a⟩ ⟨.none, { a with
        reloads := a.reloads.insert n { job with
          swap := { job.swap with phase := .verify }, deadline := a.nextDeadline }
        nextDeadline := a.nextDeadline + 1
        watchdogs := ⟨n, a.nextDeadline⟩ :: a.watchdogs }⟩
  /-- A job ends, its replacement no longer marked as one. -/
  | drop {x : Hole} {a : Actor} (n : String) :
      (∀ (job : ReloadJob) (newId : ℕ) (s : SheepSlot), a.reloads[n]? = some job →
        job.swap.newId = some newId → a.sheep[newId]? = some s → s.entry.reload ≠ .replacement) →
      (∀ job : ReloadJob, a.reloads[n]? = some job → job.swap.phase = .drainOld ∨
        job.swap.phase = .verify ∨ a.sheep[job.swap.oldId]? = none ∨
          ∃ taken, x = .exiting job.swap.oldId taken) →
      Move c ⟨x, a⟩ ⟨x, a.dropJob n⟩
  /-- A slot nobody drains is no replacement any more. -/
  | unmark {x : Hole} {a : Actor} {id : ℕ} {s : SheepSlot} :
      a.sheep[id]? = some s →
      (∀ (n : String) (job : ReloadJob), a.reloads[n]? = some job → job.swap.oldId ≠ id) →
      (∀ q, s.entry.reload ≠ .drainee q) →
      (∀ (n : String) (job : ReloadJob), a.reloads[n]? = some job →
        job.swap.phase = .awaitReady → job.swap.newId = some id →
        (a.sheep[job.swap.oldId]?).isSome = true → s.pendingDelete = true ∨ s.ctl = none) →
      Move c ⟨x, a⟩ ⟨x, a.setSlot id (s.setReload .none)⟩
  /-- An aborted swap ends and gives its drainee back. -/
  | restore {x : Hole} {a : Actor} {n : String} {job : ReloadJob} {s : SheepSlot} :
      a.reloads[n]? = some job → job.swap.phase = .awaitReady →
      a.sheep[job.swap.oldId]? = some s →
      (∀ (newId : ℕ) (t : SheepSlot), job.swap.newId = some newId → a.sheep[newId]? = some t →
        t.entry.reload ≠ .replacement) →
      Move c ⟨x, a⟩ ⟨x, (a.setSlot job.swap.oldId s.restore).dropJob n⟩
  /-- A serial drain is given up, and its drainee is left to itself. -/
  | lapse {x : Hole} {a : Actor} {n : String} {job : ReloadJob} {s : SheepSlot} :
      a.reloads[n]? = some job → job.swap.phase = .drainFirst →
      a.sheep[job.swap.oldId]? = some s →
      Move c ⟨x, a⟩ ⟨x, (a.setSlot job.swap.oldId (s.setReload .none)).dropJob n⟩
  /-- A starting sheep is ready. -/
  | online {a : Actor} {id : ℕ} {s : SheepSlot} :
      a.sheep[id]? = some s → s.entry.status = .starting → a.shuttingDown = false →
      (s.entry.reload = .replacement → c.ReportsReady id) →
      Move c ⟨.none, a⟩ ⟨.none, a.setSlot id { s.setStatus .online with readyFailed := false }⟩
  /-- A replacement that never got ready is left up. -/
  | parkFailed {a : Actor} {id : ℕ} {s : SheepSlot} :
      a.sheep[id]? = some s → s.ctl.isSome = true →
      Move c ⟨.none, a⟩ ⟨.none, a.setSlot id { s with readyFailed := true }⟩
  /-- A replacement the drained instance answered for is taken back out of
  `Online`. -/
  | demote {a : Actor} {id : ℕ} {s : SheepSlot} :
      a.sheep[id]? = some s → (s.ctl = none → c.DemotesDead) →
      (∃ v, c.Verifies v .timedOut ∧ v.newId = id) → s.entry.reload ≠ .replacement →
      Move c ⟨.none, a⟩ ⟨.none, a.setSlot id { s.setStatus .starting with readyFailed := true }⟩
  /-- The shutdown flag is set, and every reload abandoned. -/
  | shutdown {a : Actor} :
      Move c ⟨.none, a⟩ ⟨.none, { a with shuttingDown := true, reloads := ∅ }⟩
  /-- A watchdog nobody waits for has fired. -/
  | unwatch {a : Actor} (w : Watchdog) :
      (∀ (n : String) (job : ReloadJob), a.reloads[n]? = some job → ⟨n, job.deadline⟩ ≠ w) →
      Move c ⟨.none, a⟩ ⟨.none, { a with watchdogs := a.watchdogs.erase w }⟩
  | panic {a : Actor} (message : String) :
      c.VerifiesGone → Move c ⟨.none, a⟩ ⟨.none, a.panic message⟩
  | assertFail {x : Hole} {a : Actor} (message : String) :
      c.ExitsServing → Move c ⟨x, a⟩ ⟨x, { a with trace := .assertFailed message :: a.trace }⟩

/-- The moves of one turn. -/
abbrev Moves (c : Turn) : Point → Point → Prop := Relation.ReflTransGen (Move c)

end Supervisor

end Shep
