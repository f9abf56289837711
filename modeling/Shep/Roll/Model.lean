import Shep.Common.Run
import Shep.Supervisor.Model.Run

/-!
# Roll — the flock registry beside the supervisor

`snapshot/mod.rs`'s `FlockRegistry`, the arms of `rpc/dispatch.rs` that
write it, and the runs of the roll writer that prune it. Each client
request is a task of its own: it asks the supervisor, one command at a
time, and records what it is told; a start, an add and a muster record
first. `Desk` is the supervisor together with the registry and every such
task part way through, and any of them may move next.

What a request is refused for before anything is written (a config that
does not normalize, a name twice in one document, a dependency cycle) ends
it here, and so does a deadline: the future is dropped, and a command it
has already sent is carried out with nobody listening.
-/

namespace Shep

namespace Roll

open Supervisor

/-! ## The registry -/

/-- `FlockRegistry`: each app's config, by name. -/
abbrev Registry := Std.ExtTreeMap String AppConfig

/-- `SavedApp`: one entry of the muster roll. -/
structure SavedApp where
  app : AppConfig
  instancesRunning : ℕ
  disabled : Bool
  deriving Repr, DecidableEq

/-- `is_running`: the statuses a roll counts as up. -/
def isRunning : ProcStatus → Bool
  | .online | .starting | .waitingRestart => true
  | .stopping | .stopped | .errored => false

/-- Whether a listing has a row of that name. -/
def listed (infos : List ProcessInfo) (name : String) : Bool :=
  infos.any fun info => info.name == name

namespace Registry

/-- `record`. -/
def record (registry : Registry) (apps : List AppConfig) : Registry :=
  apps.foldl (fun registry app => registry.insert app.name app) registry

/-- The `retain` of `roll`: only a name the listing has is kept. -/
def prune (registry : Registry) (infos : List ProcessInfo) : Registry :=
  registry.filter fun name _ => listed infos name

/-- The roll `roll` builds from what is left after its `retain`. -/
def roll (registry : Registry) (infos : List ProcessInfo) : List SavedApp :=
  (registry.prune infos).toList.map fun entry =>
    { app := entry.2
      instancesRunning := infos.countP fun info => info.name == entry.1 && isRunning info.status
      disabled := infos.any fun info => info.name == entry.1 && info.disabled == some true }

end Registry

/-! ## Requests -/

/-- What `start_in_stages` reads of a `BootPlan`: its stages, and the names
any app of the batch waits on. -/
structure BootPlan where
  stages : List (List String)
  dependedOn : List String
  deriving Repr, DecidableEq

/-- One `Command::Start` of a staged start. -/
structure Stage where
  members : List AppConfig
  gate : List String
  deriving Repr, DecidableEq

/-- The commands `start_in_stages` walks through. A stage keeps the order
the caller handed it, and one with no member is skipped. -/
def BootPlan.stagesOf (plan : BootPlan) (apps : List AppConfig) : List Stage :=
  plan.stages.filterMap fun stage =>
    let members := apps.filter fun app => stage.contains app.name
    if members.isEmpty then none
    else some ⟨members, (members.map AppConfig.name).filter plan.dependedOn.contains⟩

/-- `normalize_all`, with its refusals left out: a name twice refuses the
document. -/
def normalizeAll (w : World) (apps : List AppConfig) : Option (List AppConfig) :=
  if (apps.map AppConfig.name).Nodup then apps.mapM fun app => (w.normalize app).toOption else none

/-- `Restorable`. -/
structure Restorable where
  members : List AppConfig
  toStart : List AppConfig
  disabled : List String

/-- `restorable`: what a muster puts back. An entry that no longer
normalizes is left out. -/
def restorable (w : World) (autostart : AppConfig → Bool) (saved : List SavedApp) : Restorable :=
  let held := saved.filterMap fun s => (w.normalize s.app).toOption.map fun app => (s, app)
  { members := held.map Prod.snd
    toStart := (held.filter fun e =>
      !e.1.disabled && decide (0 < e.1.instancesRunning) && autostart e.1.app).map Prod.snd
    disabled := (held.filter fun e => e.1.disabled).map fun e => e.1.app.name }

/-- The apps whose config a command writes. -/
def edited : Command → List String
  | .scale name _ => [name]
  | .applyConfig apps _ => apps.map fun app => app.config.name
  | .setSheepEnv name _ _ => [name]
  | .setSheepEnvBatch name _ _ _ => [name]
  | .copySheepEnv _ target _ _ _ _ => [target]
  | .setSheepField name _ _ => [name]
  | .resetSheepField name _ => [name]
  | .setSheepDogSettings name _ _ => [name]
  | _ => []

/-- The commands whose answer a request records. -/
def edits : Command → Bool
  | .scale _ _ | .applyConfig _ _ | .setSheepEnv _ _ _ | .setSheepEnvBatch _ _ _ _
  | .copySheepEnv _ _ _ _ _ _ | .setSheepField _ _ _ | .resetSheepField _ _
  | .setSheepDogSettings _ _ _ => true
  | _ => false

/-- A command whose answer a request records. -/
abbrev Edit := { command : Command // edits command = true }

/-- The requests that write the registry. A plan is what `staged_plan`
answered, `none` for a cycle. -/
inductive Request where
  | start (apps : List AppConfig) (plan : Option BootPlan)
  | add (apps : List AppConfig) (plan : Option BootPlan)
  | muster (saved : List SavedApp) (autostart : AppConfig → Bool)
  | edit (edit : Edit)

/-- The commands only a request of this module sends. -/
def requested : Command → Bool
  | .start _ _ _ | .registerAtRest _ _ => true
  | command => edits command

/-- Whether a message is one of a request's commands. -/
def sentByRequest : Msg → Bool
  | .command command => requested command
  | _ => false

/-- A request waiting for the supervisor's next word. An edit nobody hears
out is one whose deadline has passed; `next` is what a muster starts once
its members at rest are registered. -/
inductive Errand where
  | edit (edit : Edit) (heard : Bool)
  | start (policy : BatchPolicy) (stages : List Stage)
  | add (apps : List AppConfig) (disabled : List String) (next : List AppConfig)
  | muster (members toStart : List AppConfig) (disabled : List String)

/-- The apps an errand has recorded and not yet registered. -/
def Errand.enrolled : Errand → List AppConfig
  | .start _ stages => stages.flatMap Stage.members
  | .add apps _ _ => apps
  | .edit _ _ | .muster _ _ _ => []

/-- What a request records of an answer. -/
def recorded : Answer → List AppConfig
  | .scaled (.ok scaled) => [scaled.app]
  | .config (.ok (some app)) => [app]
  | .applied report => report.filterMap fun row => row.2.2
  | _ => []

/-- The answer a turn ended in. -/
def lastAnswer (a : Actor) : Option Answer :=
  match a.trace with
  | .replied _ answer :: _ => some answer
  | _ => none

/-- What a turn gave its request to record. -/
def toRecord (a : Actor) : List AppConfig :=
  match lastAnswer a with
  | some answer => recorded answer
  | none => []

/-- Whether a turn refused its request. -/
def refused (a : Actor) : Bool :=
  match lastAnswer a with
  | some (.info (.error _)) => true
  | _ => false

/-! ## The desk -/

/-- The supervisor, the registry, the requests waiting for a word from the
one, those holding an answer for the other (oldest first), and the
listings roll writers have taken and not yet rolled. -/
structure Desk where
  actor : Actor
  registry : Registry := ∅
  waiting : List Errand := []
  owed : List (List AppConfig) := []
  listings : List (List ProcessInfo) := []

namespace Desk

/-- A daemon as it boots. -/
def boot (dogBinaries : List (String × String)) : Desk := { actor := Actor.init dogBinaries }

/-- Records apps that are about to be registered. -/
def enrol (apps : List AppConfig) (d : Desk) : Desk :=
  { d with registry := d.registry.record apps }

/-- A staged start goes on while it has a stage left. -/
def startOn (policy : BatchPolicy) (stages : List Stage) (d : Desk) : Desk :=
  if stages.isEmpty then d else { d with waiting := d.waiting ++ [.start policy stages] }

/-- The second half of `muster`: what it starts is recorded first. -/
def musterOn (plan : BootPlan) (apps : List AppConfig) (d : Desk) : Desk :=
  if apps.isEmpty then d else (d.enrol apps).startOn .perApp (plan.stagesOf apps)

/-- The first half of `muster`, past its listing: an app the flock has is
left where it stands, and the members it does not start are recorded and
registered at rest. -/
def musterPast (plan : BootPlan) (running : List ProcessInfo) (members toStart : List AppConfig)
    (disabled : List String) (d : Desk) : Desk :=
  let starting := toStart.map AppConfig.name
  let atRest := members.filter fun app => !listed running app.name && !starting.contains app.name
  let fresh := toStart.filter fun app => !listed running app.name
  if atRest.isEmpty then d.musterOn plan fresh
  else { d.enrol atRest with waiting := d.waiting ++ [.add atRest disabled fresh] }

/-- A command the supervisor takes, if it still takes any. -/
def tell (w : World) (command : Command) (d : Desk) : Desk :=
  if d.actor.running then { d with actor := d.actor.turn w (.command command) } else d

/-- An arm of `dispatch`'s `run` up to its first wait. -/
def take (w : World) (d : Desk) : Request → Desk
  | .start apps plan =>
    match normalizeAll w apps, plan with
    | some resolved, some plan =>
      (d.enrol resolved).startOn .allOrNothing (plan.stagesOf resolved)
    | _, _ => d
  | .add apps plan =>
    match normalizeAll w apps, plan with
    | some resolved, some _ =>
      { d.enrol resolved with waiting := d.waiting ++ [.add resolved [] []] }
    | _, _ => d
  | .muster saved autostart =>
    let r := restorable w autostart saved
    if r.members.isEmpty then d
    else { d with waiting := d.waiting ++ [.muster r.members r.toStart r.disabled] }
  | .edit edit =>
    -- `duplicate_name` refuses a load that names an app twice
    if (edited edit.1).Nodup then { d with waiting := d.waiting ++ [.edit edit true] } else d

/-- The supervisor's word on one errand, and what the request does with it
up to its next wait. `plan` is the boot plan of what a muster starts. -/
def settle (w : World) (plan : BootPlan) (d : Desk) : Errand → Desk
  | .edit edit heard =>
    let d' := d.tell w edit.1
    if heard && d.actor.running && !(toRecord d'.actor).isEmpty then
      { d' with owed := d'.owed ++ [toRecord d'.actor] }
    else d'
  | .start _ [] => d
  | .start policy (stage :: stages) =>
    let d' := d.tell w (.start stage.members policy stage.gate)
    if policy = .allOrNothing ∧ (d.actor.running = false ∨ refused d'.actor) then d'
    else d'.startOn policy stages
  | .add apps disabled next => (d.tell w (.registerAtRest apps disabled)).musterOn plan next
  | .muster members toStart disabled =>
    (d.tell w .list).musterPast plan (if d.actor.running then d.actor.snapshotAll else []) members
      toStart disabled

/-- The supervisor comes to the errand at `i`. -/
def serve (w : World) (plan : BootPlan) (i : ℕ) (d : Desk) : Desk :=
  match d.waiting[i]? with
  | some errand => { d with waiting := d.waiting.eraseIdx i }.settle w plan errand
  | none => d

/-- The request holding the answer at `i` records it. -/
def enter (i : ℕ) (d : Desk) : Desk :=
  match d.owed[i]? with
  | some apps => { d with registry := d.registry.record apps, owed := d.owed.eraseIdx i }
  | none => d

/-- `with_deadline` drops the request at `i`. A command it has `sent` stays
in the supervisor's mailbox. -/
def expire (i : ℕ) (sent : Bool) (d : Desk) : Desk :=
  match d.waiting[i]? with
  | some (.edit edit _) => { d with waiting := d.waiting.set i (.edit edit false) }
  | some (.start policy (stage :: _)) =>
    if sent then { d with waiting := d.waiting.set i (.start policy [stage]) }
    else { d with waiting := d.waiting.eraseIdx i }
  | some (.add apps disabled _) => { d with waiting := d.waiting.set i (.add apps disabled []) }
  | some _ => { d with waiting := d.waiting.eraseIdx i }
  | none => d

/-- `write_now`'s first half. -/
def list (w : World) (d : Desk) : Desk :=
  { d.tell w .list with listings := d.listings ++ [d.actor.snapshotAll] }

/-- `write_now`'s second half, up to the file. -/
def prune (i : ℕ) (d : Desk) : Desk :=
  match d.listings[i]? with
  | some infos =>
    { d with registry := d.registry.prune infos, listings := d.listings.eraseIdx i }
  | none => d

end Desk

/-- What can happen at a desk. -/
inductive Event where
  | own (w : World) (m : Msg)
  | request (w : World) (r : Request)
  | serve (w : World) (plan : BootPlan) (i : ℕ)
  | enter (i : ℕ)
  | expire (i : ℕ) (sent : Bool)
  | list (w : World)
  | prune (i : ℕ)

namespace Desk

/-- Whether an event can be the next. A message of the supervisor's own is
any it admits that no request sends. -/
def Admits (d : Desk) : Event → Prop
  | .own _ m => d.actor.running = true ∧ d.actor.admits m ∧ sentByRequest m = false
  | .request _ _ => True
  | .serve _ _ i => i < d.waiting.length
  | .enter i => i < d.owed.length
  | .expire i _ => i < d.waiting.length
  | .list _ => d.actor.running = true
  | .prune i => i < d.listings.length

instance (d : Desk) (e : Event) : Decidable (d.Admits e) :=
  match e with
  | .own _ m => inferInstanceAs (Decidable (_ ∧ d.actor.admits m ∧ _))
  | .request _ _ => isTrue trivial
  | .serve _ _ i => inferInstanceAs (Decidable (i < d.waiting.length))
  | .enter i => inferInstanceAs (Decidable (i < d.owed.length))
  | .expire i _ => inferInstanceAs (Decidable (i < d.waiting.length))
  | .list _ => inferInstanceAs (Decidable (d.actor.running = true))
  | .prune i => inferInstanceAs (Decidable (i < d.listings.length))

/-- The desk after an event. -/
def next (d : Desk) : Event → Desk
  | .own w m => { d with actor := d.actor.turn w m }
  | .request w r => d.take w r
  | .serve w plan i => d.serve w plan i
  | .enter i => d.enter i
  | .expire i sent => d.expire i sent
  | .list w => d.list w
  | .prune i => d.prune i

/-- One event at a desk. -/
def Step (d : Desk) (e : Event) (d' : Desk) : Prop := d.Admits e ∧ d' = d.next e

end Desk

end Roll

end Shep
