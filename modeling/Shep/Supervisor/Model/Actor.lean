import Shep.Supervisor.Model.Types

/-!
# Supervisor — the actor's state and its primitive writes

`Actor` is the source's `Actor` together with what it has set going and
not heard back from: the sheep tasks, the back-off timers, the readiness
waits, the reload watchdogs and the verify probes. `trace` records, newest
first, what the actor did that the outside can see. `World` is everything
a handler asks outside the actor and is a fresh value at every message, so
a later answer may contradict an earlier one.
-/

namespace Shep

namespace Supervisor

/-! ## What a handler asks outside -/

/-- `AssembleError`: why a spawn could not be assembled. -/
inductive AssembleError where
  | template (field reason : String) (retriable : Bool)
  | dogMissing (dog : String)
  | cgroupUnavailable (setting reason : String)
  | listen (reason : String)
  deriving Repr, DecidableEq

namespace AssembleError

/-- `is_retriable`: only a namespace no provider dog has pushed to yet. -/
def isRetriable : AssembleError → Bool
  | .template _ _ retriable => retriable
  | .dogMissing _ | .cgroupUnavailable _ _ | .listen _ => false

/-- The refusal in the daemon's own words. -/
def text : AssembleError → String
  | .template field reason _ => "`" ++ field ++ "`: " ++ reason
  | .dogMissing dog => "the `" ++ dog ++
      "` dog is not adopted or is disabled, and this sheep does not run without it"
  | .cgroupUnavailable setting reason => "`" ++ setting ++
      "` needs a cgroup for this sheep, and this shepherd has none: " ++ reason
  | .listen reason => reason

end AssembleError

/-- `Preflight`. -/
inductive Preflight where
  | unknown
  | impossible (reason : String)
  | doubtful (reason : String)
  deriving Repr, DecidableEq

/-- `ResetDepth`: how much of a declaration a load puts back. -/
inductive ResetDepth where
  | none
  | file
  | policy
  | env
  | all
  deriving Repr, DecidableEq

/-- `DeclaredApp`: one app of a Flockfile, and the keys the file spells. -/
structure DeclaredApp where
  config : AppConfig
  declared : List String
  deriving Repr, DecidableEq

/-- What the handling of one message is told by the host, the runner and
the override store. Its laws are what the source's functions keep:
`resolve` has nothing to ask for an app with no `user` and no `group`, no
config function renames an app, and a map's first match is one of them. -/
structure World where
  /-- `privilege::resolve`. -/
  resolve : AppConfig → Except String (Option Credentials)
  resolve_none : ∀ {c}, c.user = none → c.group = none → resolve c = .ok none
  /-- `assemble`, for one instance of an app. -/
  assemble : AppConfig → ℕ → Except AssembleError Unit
  /-- `cgroup_placement`, then `listen_for`. -/
  place : ℕ → AppConfig → Except AssembleError Unit
  /-- `runner.preflight`. -/
  preflight : AppConfig → Preflight
  /-- `runner.spawn`: the pid of the child, or the runner's message. -/
  spawn : ℕ → AppConfig → Except String ℕ
  /-- What a failed spawn says was tried. -/
  attempted : AppConfig → String
  /-- `normalize`. -/
  normalize : AppConfig → Except String AppConfig
  normalize_name : ∀ {c c'}, normalize c = .ok c' → c'.name = c.name
  normalize_identity : ∀ {c c'}, normalize c = .ok c' → c'.user = c.user ∧ c'.group = c.group
  /-- A config that holds at a count holds at every lower one, and reads the
  same there whether or not it was normalized before. -/
  normalize_recount : ∀ {c c' : AppConfig} {k j : ℕ},
    normalize { c with instances := k } = .ok c' → 1 ≤ j → j ≤ k →
    normalize { c' with instances := j } = normalize { c with instances := j } ∧
      (normalize { c with instances := j }).isOk = true
  /-- `merge_declared`, then `normalize`. -/
  mergeDeclared : AppConfig → DeclaredApp → ResetDepth → Except String AppConfig
  mergeDeclared_name : ∀ {c d r c'}, c.name = d.config.name →
    mergeDeclared c d r = .ok c' → c'.name = c.name
  mergeDeclared_normal : ∀ {c d r c'}, mergeDeclared c d r = .ok c' → normalize c' = .ok c'
  /-- Whether a drifted field waits for a respawn. -/
  needsRespawn : AppConfig → AppConfig → Bool
  /-- `reached_spec`: the running config with what drifted from the intended
  one and can reach it, at a count. -/
  reachedSpec : AppConfig → AppConfig → AppConfig → ℕ → Except String AppConfig
  reachedSpec_name : ∀ {c i m n c'}, c.name = m.name →
    reachedSpec c i m n = .ok c' → c'.name = c.name
  reachedSpec_identity : ∀ {c i m n c'}, reachedSpec c i m n = .ok c' →
    c'.user = c.user ∧ c'.group = c.group
  /-- With nothing parked and nothing that waits for a respawn, everything
  reaches. -/
  reachedSpec_whole : ∀ {c m : AppConfig} {n : ℕ}, needsRespawn c m = false →
    reachedSpec c c m n = normalize { m with instances := n }
  /-- One field of a config set to a value, before `normalize`. -/
  editField : AppConfig → String → String → Except String AppConfig
  editField_name : ∀ {c k v c'}, editField c k v = .ok c' → c'.name = c.name
  /-- Whether a field's value reaches a running child. -/
  reaches : String → Bool
  /-- Whether a key is one `SetSheepField` leaves to another request. -/
  unowned : String → Option String
  /-- The value a reset puts a field back to. -/
  templateValue : String → String → Except SupervisorError String
  /-- `mutate_override`: the field names it leaves overridden. -/
  mutateOverride : String → Except SupervisorError (List String)
  /-- `overrides::all`, as far as it can fail. -/
  readOverrides : Except String Unit
  /-- `overrides::update`, as far as it can fail. -/
  writeOverrides : Except String Unit
  /-- The field names a load leaves overridden. -/
  overriddenAfter : String → ResetDepth → List String
  /-- `overridden_for`, when no sibling is registered. -/
  overriddenOf : String → List String
  /-- `registry.liveness_epoch`. -/
  livenessEpoch : ℕ → ℕ
  /-- A hash map's first match. -/
  pick : List ℕ → ℕ
  pick_mem : ∀ {l}, l ≠ [] → pick l ∈ l
  now : ℕ

/-! ## What the actor has set going -/

/-- Which door a process came through. -/
inductive SpawnVia where
  | fresh
  | respawn
  | replacement
  | adopted
  deriving Repr, DecidableEq

/-- One sheep task: it reports exactly one exit. `serial` names this life
of the process, `pid` is the child it waits on, and the config and the
identity are what that child was spawned from. -/
structure Task where
  serial : ℕ
  id : ℕ
  name : String
  via : SpawnVia
  pid : ℕ
  spec : AppConfig
  credentials : Option Credentials
  deriving Repr, DecidableEq

/-- A back-off timer: the `RestartDue` it will send and the delay it
sleeps out first. -/
structure RestartTimer where
  serial : ℕ
  id : ℕ
  epoch : ℕ
  delay : Option ℕ
  deriving Repr, DecidableEq

/-- A readiness wait: the `ReadyResult` it will send. -/
structure ReadyWait where
  id : ℕ
  epoch : ℕ
  manually : Bool
  deriving Repr, DecidableEq

/-- A reload watchdog: the `ReloadDeadline` it will send. -/
structure Watchdog where
  name : String
  stamp : ℕ
  deriving Repr, DecidableEq

/-- A post-drain probe: the `ReloadVerified` it will send. -/
structure VerifyWait where
  name : String
  newId : ℕ
  deriving Repr, DecidableEq

/-- What a reply carries. -/
inductive Answer where
  | info (outcome : Except SupervisorError (List ProcessInfo))
  | ids (outcome : Except SupervisorError (List ℕ))
  | shutdown
  | scaled (outcome : Except SupervisorError Scaled)
  | config (outcome : Except SupervisorError (Option AppConfig))
  | applied (report : List (String × Option String × Option AppConfig))

/-- The payload a reply of each kind carries. -/
def ReplyKind.payload (kind : ReplyKind) (outcome : Except SupervisorError (List ProcessInfo)) :
    Answer :=
  match kind with
  | .info => .info outcome
  | .ids => .ids (outcome.map fun rows => rows.map ProcessInfo.id)
  | .shutdown => .shutdown

/-- What the actor was told and did that the outside can see, plus the
failed debug assertions a release build passes over. -/
inductive Effect where
  | spawned (task : Task)
  | killed (task grace : ℕ)
  | claimed (id : ℕ) (manual : PendingManual) (cap : LadderCap)
  | ready (id : ℕ)
  | drains (name : String) (mode : ReloadMode) (swap : ReloadSwap)
  | waiting (id timer : ℕ)
  | exited (task : ℕ)
  | parked (tag : ℕ) (tasks : List ℕ)
  | replied (tag : ℕ) (answer : Answer)
  | assertFailed (message : String)

/-! ## The actor -/

/-- The supervisor actor and what it has in flight. `done` is the loop
having broken; `panicked` is a failed `expect`. -/
structure Actor where
  sheep : Std.ExtTreeMap ℕ SheepSlot := ∅
  nextId : ℕ := 0
  pending : List PendingReply := []
  shuttingDown : Bool := false
  reloads : Std.ExtTreeMap String ReloadJob := ∅
  nextDeadline : ℕ := 0
  disabled : List String := []
  dogBinaries : List (String × String) := []
  tasks : List Task := []
  timers : List RestartTimer := []
  readies : List ReadyWait := []
  watchdogs : List Watchdog := []
  verifies : List VerifyWait := []
  nextTask : ℕ := 0
  nextTimer : ℕ := 0
  nextReply : ℕ := 0
  trace : List Effect := []
  done : Bool := false
  panicked : Option String := none

namespace Actor

/-- The actor `SupervisorBuilder::spawn` starts: empty, with the dog
binaries boot read. -/
def init (dogBinaries : List (String × String)) : Actor :=
  { dogBinaries := dogBinaries }

/-- Whether the loop still reads its mailbox. -/
def running (a : Actor) : Bool := !a.done && a.panicked.isNone

/-! ## Primitive writes -/

/-- A failed `expect`: the actor task ends. -/
def panic (message : String) (a : Actor) : Actor :=
  { a with panicked := some message }

/-- `debug_assert!`, recorded when it fails. -/
def debugAssert (holds : Bool) (message : String) (a : Actor) : Actor :=
  if holds then a else { a with trace := .assertFailed message :: a.trace }

/-- Writes the slot registered under `id`. -/
def setSlot (id : ℕ) (slot : SheepSlot) (a : Actor) : Actor :=
  { a with sheep := a.sheep.insert id slot }

/-- `sheep.get_mut(&id)`, with nothing done for an unknown id. -/
def modifySlot (id : ℕ) (f : SheepSlot → SheepSlot) (a : Actor) : Actor :=
  match a.sheep[id]? with
  | some slot => a.setSlot id (f slot)
  | none => a

/-- `sheep.remove(&id)`. -/
def removeSlot (id : ℕ) (a : Actor) : Actor :=
  { a with sheep := a.sheep.erase id }

/-- Writes every slot in place. -/
def mapSlots (f : SheepSlot → SheepSlot) (a : Actor) : Actor :=
  { a with sheep := a.sheep.map fun _ slot => f slot }

/-- The rows a caller sees for `id`. -/
def infoOf (id : ℕ) (a : Actor) : List ProcessInfo :=
  match a.sheep[id]? with
  | some slot => [toInfo id slot]
  | none => []

/-- The registered ids whose slot satisfies `p`, in id order. -/
def idsWhere (p : ℕ → SheepSlot → Bool) (a : Actor) : List ℕ :=
  (a.sheep.toList.filter fun entry => p entry.1 entry.2).map Prod.fst

/-- Whether a live task runs under `id`. -/
def isRunning (id : ℕ) (a : Actor) : Bool :=
  match a.sheep[id]? with
  | some slot => slot.ctl.isSome
  | none => false

/-- `send_reply`: an answer to the command in hand, or a parked one. -/
def sendReply (tag : ℕ) (answer : Answer) (a : Actor) : Actor :=
  { a with trace := .replied tag answer :: a.trace }

/-- Answers a command at once, on a reply channel of its own. -/
def answer (answer : Answer) (a : Actor) : Actor :=
  { a with nextReply := a.nextReply + 1, trace := .replied a.nextReply answer :: a.trace }

end Actor

end Supervisor

end Shep
