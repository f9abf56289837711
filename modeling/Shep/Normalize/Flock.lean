import Shep.Common.Run
import Shep.Normalize.Model

/-!
# Normalize — the configs a flock holds

`ResolvedApp` is a config `normalize` answered with, and every slot's `spec`
and `pending` is one. The registry and the roll hold bare configs. `Door` is
every way in which either comes to hold another: a start, a scale, a load,
an edit, a reload, a muster, a handover. What a door leaves open (which
slots a scale adds, what a merge comes to, which fields reach a running
process) is a parameter of it, and a door that refuses leaves the flock
alone.
-/

namespace Shep

namespace Normalize

open Template (Text)

variable {Rest : Type}

/-- What every daemon of a shepherd normalizes with. -/
structure Machine (Rest : Type) where
  grammars : Grammars
  home : Option Text
  shepHome : Option Text
  /-- `reached_spec` up to its count: the first config's object, with the
  named fields of the second's, if that reads back as a config. -/
  splice : AppConfig Rest → AppConfig Rest → List String → Option (AppConfig Rest)
  autostart : AppConfig Rest → Bool

/-- `ResolvedApp`: a config `normalize` answered with. -/
structure ResolvedApp (m : Machine Rest) where
  config : AppConfig Rest
  normalized : ∃ app, normalizeWithHome m.grammars m.home m.shepHome app = .ok config

variable {m : Machine Rest}

/-- `normalize`. -/
def Machine.normalize (m : Machine Rest) (app : AppConfig Rest) :
    Except NormalizeError (ResolvedApp m) :=
  match h : normalizeWithHome m.grammars m.home m.shepHome app with
  | .error err => .error err
  | .ok config => .ok ⟨config, app, h⟩

/-- `normalize_all`, with its refusals left out. -/
def Machine.normalizeAll (m : Machine Rest) (apps : List (AppConfig Rest)) :
    Option (List (ResolvedApp m)) :=
  if (apps.map AppConfig.name).Nodup then apps.mapM fun app => (m.normalize app).toOption
  else none

namespace ResolvedApp

def name (app : ResolvedApp m) : Text := app.config.name

/-- `try_with_count`. -/
def tryWithCount (app : ResolvedApp m) (instances : ℕ) : Except NormalizeError (ResolvedApp m) :=
  m.normalize { app.config with instances := instances }

/-- `with_count`. -/
def withCount (app : ResolvedApp m) (instances : ℕ) : Option (ResolvedApp m) :=
  (app.tryWithCount instances).toOption

end ResolvedApp

/-- `reached_spec`, with its refusal left out. -/
def Machine.reachedSpec (m : Machine Rest) (stored merged : AppConfig Rest)
    (reaching : List String) (instances : ℕ) : Option (ResolvedApp m) :=
  (m.splice stored merged reaching).bind fun config =>
    (m.normalize { config with instances := instances }).toOption

/-! ## Slots -/

/-- What a slot holds of configs. -/
structure ProcessEntry (m : Machine Rest) where
  spec : ResolvedApp m
  pending : Option (ResolvedApp m) := none
  dog : Bool := false

/-- `intended_spec`. -/
def ProcessEntry.intended (entry : ProcessEntry m) : ResolvedApp m :=
  entry.pending.getD entry.spec

/-- What a handover blob carries of it. -/
structure CarriedSheep (Rest : Type) where
  app : AppConfig Rest
  pending : Option (AppConfig Rest)
  dog : Bool

/-- `CarriedSheep::from_entry`. -/
def ProcessEntry.carry (entry : ProcessEntry m) : CarriedSheep Rest where
  app := entry.spec.config
  pending := entry.pending.map ResolvedApp.config
  dog := entry.dog

/-- `AdoptError::Spec`. -/
structure AdoptError where
  sheep : Text
  source : NormalizeError

/-- `install_adopted`: a config that does not normalize refuses the
adoption, a parked one is dropped. -/
def Machine.installAdopted (m : Machine Rest) (carried : CarriedSheep Rest) :
    Except AdoptError (ProcessEntry m) :=
  match m.normalize carried.app with
  | .error source => .error ⟨carried.app.name, source⟩
  | .ok app => .ok
    { spec := app
      pending := carried.pending.bind fun parked => (m.normalize parked).toOption
      dog := carried.dog }

/-! ## The roll -/

/-- A row of the flock's listing. -/
structure ProcessInfo where
  name : Text
  running : Bool
  disabled : Bool
  deriving Repr, DecidableEq

/-- `SavedApp`. -/
structure SavedApp (Rest : Type) where
  app : AppConfig Rest
  instancesRunning : ℕ
  disabled : Bool

/-- `FlockRegistry`: the recorded configs, by name. -/
abbrev Registry (Rest : Type) := Std.ExtTreeMap Text (AppConfig Rest)

namespace Registry

/-- `record_config`. -/
def recordConfig (registry : Registry Rest) (app : AppConfig Rest) : Registry Rest :=
  registry.insert app.name app

/-- `record`. -/
def record (registry : Registry Rest) (apps : List (ResolvedApp m)) : Registry Rest :=
  apps.foldl (fun registry app => recordConfig registry app.config) registry

/-- The prune a roll makes: what the listing does not name goes. -/
def prune (registry : Registry Rest) (infos : List ProcessInfo) : Registry Rest :=
  registry.filter fun name _ => infos.any fun info => info.name == name

/-- `roll`, past its prune. -/
def roll (registry : Registry Rest) (infos : List ProcessInfo) : List (SavedApp Rest) :=
  (prune registry infos).toList.map fun entry =>
    { app := entry.2
      instancesRunning := infos.countP fun info => info.name == entry.1 && info.running
      disabled := infos.any fun info => info.name == entry.1 && info.disabled }

end Registry

/-- `Restorable`. -/
structure Restorable (m : Machine Rest) where
  members : List (ResolvedApp m) := []
  toStart : List (ResolvedApp m) := []
  disabled : List Text := []
  rejected : List (Text × NormalizeError) := []

/-- `restorable`'s word on one entry of the roll. -/
def Machine.restoreOne (m : Machine Rest) (found : Restorable m) (saved : SavedApp Rest) :
    Restorable m :=
  match m.normalize saved.app with
  | .error err => { found with rejected := found.rejected ++ [(saved.app.name, err)] }
  | .ok resolved =>
    let found := { found with members := found.members ++ [resolved] }
    if saved.disabled then { found with disabled := found.disabled ++ [saved.app.name] }
    else if 0 < saved.instancesRunning ∧ m.autostart saved.app then
      { found with toStart := found.toStart ++ [resolved] }
    else found

/-- `restorable`. -/
def Machine.restorable (m : Machine Rest) (saved : List (SavedApp Rest)) : Restorable m :=
  saved.foldl m.restoreOne {}

/-! ## The flock -/

/-- The slots, the registry, the apps a request has recorded and the
supervisor has yet to register, and the answers a request has yet to
record. -/
structure Flock (m : Machine Rest) where
  sheep : Std.ExtTreeMap ℕ (ProcessEntry m) := ∅
  registry : Registry Rest := ∅
  waiting : List (ResolvedApp m) := []
  answers : List (ResolvedApp m) := []

/-- What a scale makes of an app's slots: those it keeps, those it adds, and
the one a spawn that failed leaves. -/
structure Reshaped where
  kept : List ℕ
  added : List ℕ
  orphan : Option ℕ

/-- The instances left, the failed one apart. -/
def Reshaped.achieved (r : Reshaped) : ℕ := (r.kept ++ r.added).length

/-- A Flockfile's app against one of the flock: what `merge_declared` makes
of the intended config, the drifted fields that reach a running process,
whether another drifted too, and what the scale of a changed count leaves
(`none` while the daemon shuts down). -/
structure Incoming (Rest : Type) where
  merge : AppConfig Rest → Option (AppConfig Rest)
  reaching : List String
  respawn : Bool
  reshaped : Option Reshaped

namespace Flock

/-- Apps recorded, to be registered. -/
def enrol (apps : List (ResolvedApp m)) (f : Flock m) : Flock m :=
  { f with registry := f.registry.record apps, waiting := f.waiting ++ apps }

/-- Fresh slots of one app. -/
def register (ids : List ℕ) (app : ResolvedApp m) (dog : Bool) (f : Flock m) : Flock m :=
  let slot : ProcessEntry m := { spec := app, dog := dog }
  { f with sheep := ids.foldl (fun sheep id => sheep.insert id slot) f.sheep }

/-- An answer its request has yet to record. -/
def answer (apps : List (ResolvedApp m)) (f : Flock m) : Flock m :=
  { f with answers := f.answers ++ apps }

/-- The slots of a name. -/
def idsOfName (name : Text) (f : Flock m) : List ℕ :=
  (f.sheep.toList.filter fun entry => entry.2.spec.name == name).map Prod.fst

/-- Whether one of the slots is owed a config. -/
def owes (ids : List ℕ) (f : Flock m) : Bool :=
  ids.any fun id => f.sheep[id]?.any fun entry => entry.pending.isSome

/-- What a load or an edit writes on every slot of a name. -/
def write (name : Text) (spec pending : Option (ResolvedApp m)) (f : Flock m) : Flock m :=
  { f with sheep := f.sheep.map fun _ entry =>
      if entry.spec.name = name then
        { entry with spec := spec.getD entry.spec, pending := pending.or entry.pending }
      else entry }

/-- `handle_scale`, past its guards, with the config it answers with. -/
def handleScale (id count : ℕ) (r : Reshaped) (f : Flock m) : Flock m × Option (ResolvedApp m) :=
  match f.sheep[id]? with
  | none => (f, none)
  | some first => match first.spec.tryWithCount count with
    | .error _ => (f, none)
    | .ok rescaled =>
      let f := f.register (r.added ++ r.orphan.toList) rescaled false
      match rescaled.tryWithCount r.achieved with
      | .error _ => (f, none)
      | .ok stored =>
        -- `with_count(parked).unwrap_or(parked)`: a slot keeps what it is owed
        let recount (parked : ResolvedApp m) := (parked.withCount r.achieved).getD parked
        let owed := first.pending.map recount
        let written := r.kept ++ r.added ++ r.orphan.toList
        ({ f with sheep := f.sheep.map fun id entry =>
            if id ∈ written then
              { entry with spec := stored, pending := (entry.pending.map recount).or owed }
            else entry }, some stored)

/-- `apply_one`, past the merge: `count` instances run. -/
def reach (slot : ProcessEntry m) (ids : List ℕ) (merged : ResolvedApp m)
    (incoming : Incoming Rest) (count : ℕ) (f : Flock m) : Flock m :=
  let next := m.reachedSpec slot.spec.config merged.config incoming.reaching count
  let parked :=
    if next.isNone || incoming.respawn || f.owes ids then merged.withCount count else none
  let app := if count = merged.config.instances then some merged else merged.withCount count
  (f.write slot.spec.name next parked).answer app.toList

/-- `apply_one`. -/
def applyOne (id : ℕ) (incoming : Incoming Rest) (f : Flock m) : Flock m :=
  match f.sheep[id]? with
  | none => f
  | some slot =>
    if slot.dog then f
    else match (incoming.merge slot.intended.config).map m.normalize with
      | some (.ok merged) =>
        let ids := f.idsOfName slot.spec.name
        match incoming.reshaped with
        | some r =>
          if slot.intended.config.instances = merged.config.instances then
            f.reach slot ids merged incoming slot.spec.config.instances
          else match f.handleScale id merged.config.instances r with
            | (f, some _) => f.reach slot ids merged incoming r.achieved
            | (f, none) => f
        | none => f.reach slot ids merged incoming slot.spec.config.instances
      | _ => f

/-- An edit of one field: `handle_set_sheep_field` and its siblings.
`reaching` is the field where it reaches a running process. -/
def setField (id : ℕ) (edit : AppConfig Rest → Option (AppConfig Rest)) (reaching : List String)
    (f : Flock m) : Flock m :=
  match f.sheep[id]? with
  | none => f
  | some slot =>
    if slot.dog then f
    else match (edit slot.intended.config).map m.normalize with
      | some (.ok merged) =>
        let next := m.reachedSpec slot.spec.config merged.config reaching slot.spec.config.instances
        let parked :=
          if next.isNone || reaching.isEmpty || f.owes (f.idsOfName slot.spec.name) then some merged
          else none
        (f.write slot.spec.name next parked).answer [parked.getD (next.getD merged)]
      | _ => f

/-- An edit of the env: one key, a batch of keys, or a copy from another
app. -/
def setEnv (id : ℕ) (edit : Std.ExtTreeMap String Text → Std.ExtTreeMap String Text)
    (f : Flock m) : Flock m :=
  match f.sheep[id]? with
  | none => f
  | some slot =>
    if slot.dog then f
    else match m.normalize { slot.intended.config with env := edit slot.intended.config.env } with
      | .error _ => f
      | .ok parked => (f.write slot.spec.name none (some parked)).answer [parked]

/-- `promote_pending`. -/
def promotePending (id : ℕ) (f : Flock m) : Flock m :=
  match f.sheep[id]? with
  | none => f
  | some slot =>
    { f with sheep := f.sheep.insert id { slot with spec := slot.intended, pending := none } }

/-- A reload's replacement. -/
def spawnReplacement (old new : ℕ) (f : Flock m) : Flock m :=
  match f.sheep[old]? with
  | none => f
  | some slot => f.register [new] slot.intended slot.dog

section Muster

/-- Names are told apart by what they spell. -/
local instance : LawfulBEq Text := inferInstance

/-- `muster`, up to the supervisor: what the flock does not list is
recorded, the members at rest first. -/
def muster (saved : List (SavedApp Rest)) (running : List Text) (f : Flock m) : Flock m :=
  let found := m.restorable saved
  let starting := found.toStart.map ResolvedApp.name
  let atRest := found.members.filter fun app => app.name ∉ running ∧ app.name ∉ starting
  (f.enrol atRest).enrol (found.toStart.filter fun app => app.name ∉ running)

end Muster

/-- `apps_for_the_roll`: every carried sheep's, and no dog's. -/
def appsForTheRoll (carried : List (ℕ × CarriedSheep Rest)) : List (AppConfig Rest) :=
  (carried.filter fun row => !row.2.dog).map fun row => row.2.app

/-- The slots, as a handover carries them. -/
def carried (f : Flock m) : List (ℕ × CarriedSheep Rest) :=
  f.sheep.toList.map fun entry => (entry.1, entry.2.carry)

/-- A handover: the successor adopts every slot and records every sheep's
app, and the requests of its predecessor are gone. -/
def handOver (f : Flock m) : Except AdoptError (Flock m) := do
  let adopted ← f.carried.mapM fun row => (m.installAdopted row.2).map fun entry => (row.1, entry)
  return {
    sheep := .ofList adopted
    registry := (appsForTheRoll f.carried).foldl Registry.recordConfig ∅ }

end Flock

/-- What can happen to the configs of a flock. -/
inductive Door (Rest : Type) where
  /-- `Start` and `Add`. -/
  | start (apps : List (AppConfig Rest))
  /-- The supervisor registers the app at `i`, under the slots it gets. -/
  | register (i : ℕ) (ids : List ℕ)
  | dog (app : AppConfig Rest) (id : ℕ)
  | scale (id count : ℕ) (r : Reshaped)
  | load (id : ℕ) (incoming : Incoming Rest)
  | setField (id : ℕ) (edit : AppConfig Rest → Option (AppConfig Rest)) (reaching : List String)
  | setEnv (id : ℕ) (edit : Std.ExtTreeMap String Text → Std.ExtTreeMap String Text)
  /-- A request records the answer at `i`. -/
  | record (i : ℕ)
  | promote (id : ℕ)
  | replace (old new : ℕ)
  | remove (id : ℕ)
  | prune (infos : List ProcessInfo)
  | muster (saved : List (SavedApp Rest)) (running : List Text)
  | handOver

namespace Flock

/-- The flock past a door. Only a handover can end in a refusal. -/
def pass (f : Flock m) : Door Rest → Except AdoptError (Flock m)
  | .start apps => .ok (match m.normalizeAll apps with
    | some resolved => f.enrol resolved
    | none => f)
  | .register i ids => .ok (match f.waiting[i]? with
    | some app => { f with waiting := f.waiting.eraseIdx i }.register ids app false
    | none => f)
  | .dog app id => .ok (match m.normalize app with
    | .ok resolved => f.register [id] resolved true
    | .error _ => f)
  | .scale id count r =>
    let (f, stored) := f.handleScale id count r
    .ok (f.answer stored.toList)
  | .load id incoming => .ok (f.applyOne id incoming)
  | .setField id edit reaching => .ok (f.setField id edit reaching)
  | .setEnv id edit => .ok (f.setEnv id edit)
  | .record i => .ok (match f.answers[i]? with
    | some app =>
      { f with registry := f.registry.record [app], answers := f.answers.eraseIdx i }
    | none => f)
  | .promote id => .ok (f.promotePending id)
  | .replace old new => .ok (f.spawnReplacement old new)
  | .remove id => .ok { f with sheep := f.sheep.erase id }
  | .prune infos => .ok { f with registry := f.registry.prune infos }
  | .muster saved running => .ok (f.muster saved running)
  | .handOver => f.handOver

/-- One door. -/
def Step (f : Flock m) (door : Door Rest) (f' : Flock m) : Prop := f.pass door = .ok f'

end Flock

end Normalize

end Shep
