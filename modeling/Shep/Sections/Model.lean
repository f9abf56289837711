import Mathlib.Logic.Function.Basic
import Std.Data.ExtTreeMap.Lemmas
import Shep.Common.Run
import Shep.Common.Table

/-!
# Sections — moving `[dog.<name>]` out of `shep.toml`

`dog_migration.rs`'s `migrate_dog_sections`, `move_sections` and
`seed_dog_defaults`, the parts of `ShepToml` they use, and
`set_dog_section`, as any number of processes over the two files. Each
takes one step at a time, and the event says what becomes of it: done,
failed, or, for a replacement of a file, in place with its directory not
flushed. A file is what a read finds there. Comments and the places tables
are written at are the renderer's.
-/

namespace Shep

namespace Sections

/-! ## Documents -/

/-- A TOML value. A table is a header's or inline, an array one of tables
or a plain one. -/
inductive Value where
  | scalar (text : String)
  | array (items : List Value)
  | table (entries : List (String × Value))

/-- `as_table_like`. -/
def Value.asTableLike : Value → Option (List (String × Value))
  | .table entries => some entries
  | .scalar _ | .array _ => none

/-- `item_has_content`. -/
def itemHasContent (item : Value) : Bool := !item.asTableLike.any List.isEmpty

/-- `section_holds_env`. -/
def sectionHoldsEnv (item : Value) : Bool :=
  item.asTableLike.any fun entries => entries.any fun entry => entry.1 = "env"

mutual

/-- `declares_nothing`. -/
def declaresNothing : Value → Bool
  | .table entries => entries.isEmpty
  | .array items => allDeclareNothing items
  | .scalar _ => false

/-- `items.iter().all(declares_nothing)`. -/
def allDeclareNothing : List Value → Bool
  | [] => true
  | item :: items => declaresNothing item && allDeclareNothing items

end

/-- A document: what stands under each of its keys. -/
abbrev Document := Std.ExtTreeMap String Value

/-- The item under `dog` in `shep.toml`. -/
inductive Dog where
  | table (sections : Document)
  | array (items : List Value)
  | scalar (text : String)

/-- The document of `shep.toml`. -/
structure ShepToml where
  dog : Option Dog := none
  /-- Every other key. -/
  rest : Document := ∅

/-- A file, as a read finds it. -/
inductive File (α : Type) where
  | missing
  | unreadable
  /-- Text that is not TOML. -/
  | broken (text : String)
  | doc (doc : α)

/-- `DogMigrationError`. -/
inductive DogMigrationError where
  | read
  | readDogs
  | parse
  | wouldOverwrite (name : String) (holdsEnv : Bool)
  | sectionsUnreadable (names : List String)
  | write
  | lock
  | toml
  deriving Repr, DecidableEq

namespace ShepToml

/-- The `[dog]` table, empty where there is none. -/
def sections (doc : ShepToml) : Document :=
  match doc.dog with
  | some (.table sections) => sections
  | some (.array _) | some (.scalar _) | none => ∅

/-- `has_dog_table`. -/
def hasDogTable (doc : ShepToml) : Bool :=
  match doc.dog with
  | some (.table _) => true
  | some (.array _) | some (.scalar _) | none => false

/-- `declared_dog_names`, in order. -/
def declaredDogNames (doc : ShepToml) : List String :=
  (doc.sections.filter fun _ value => !declaresNothing value).keys

/-- What `take_dog_sections` hands back. -/
def takeDogSections (doc : ShepToml) : Document :=
  doc.sections.filter fun _ value => value.asTableLike.isSome

/-- What `take_dog_sections` leaves. -/
def struck (doc : ShepToml) : ShepToml := { doc with dog := none }

/-- `ShepToml::open`, none where it fails. -/
def opened : File ShepToml → Option ShepToml
  | .missing => some {}
  | .doc doc => some doc
  | .unreadable | .broken _ => none

end ShepToml

/-- The gate of `DogsConfig::load`: every top-level value is a table. -/
def loads (doc : Document) : Bool := doc.toList.all fun entry => entry.2.asTableLike.isSome

/-- `read_dogs_document`. -/
def readDogsDocument : File Document → Except DogMigrationError Document
  | .missing => .ok ∅
  | .unreadable => .error .readDogs
  | .broken _ => .error .parse
  | .doc doc => if loads doc then .ok doc else .error .parse

/-- `incoming`: the sections taken, less the empty ones. -/
def incoming (doc : ShepToml) : Document :=
  doc.takeDogSections.filter fun _ value => itemHasContent value

/-- `missing`: the names declared that no section came back for. -/
def missing (declared : Option (List String)) (doc : ShepToml) : List String :=
  match declared with
  | some names => names.filter fun name => !(incoming doc).contains name
  | none => []

/-- What `move_sections` takes, before it looks at `dogs.toml`. -/
def taking (declared : Option (List String)) (doc : ShepToml) :
    Except DogMigrationError Document :=
  if (incoming doc).isEmpty ∧ declared = some [] then .ok ∅
  else if missing declared doc ≠ [] ∨ (incoming doc).isEmpty then
    .error (.sectionsUnreadable (missing declared doc))
  else .ok (incoming doc)

/-- `merged`, once every section taken is inserted. -/
def inserted (merged taken : Document) : Document :=
  taken.toList.foldl (fun merged entry => merged.insert entry.1 entry.2) merged

/-- What `move_sections` makes of `dogs.toml`. -/
def merging (taken : Document) (dogs : File Document) : Except DogMigrationError Document :=
  match readDogsDocument dogs with
  | .error e => .error e
  | .ok merged =>
    match taken.toList.find? fun entry => (merged[entry.1]?).any itemHasContent with
    | some entry => .error (.wouldOverwrite entry.1 (sectionHoldsEnv entry.2))
    | none => .ok (inserted merged taken)

/-! ## Processes -/

/-- `DefaultsOutcome`. -/
inductive DefaultsOutcome where
  | written
  | kept
  | empty
  | unreadable
  deriving Repr, DecidableEq

/-- `DogError`, of `set_dog_section`. -/
inductive DogError where
  | config
  | io
  deriving Repr, DecidableEq

/-- What is asked of a process. A text that is not TOML has no entries. -/
inductive Job where
  | migrateDogSections
  | seedDogDefaults (name : String) (defaults : Option (List (String × Value)))
  | setDogSection (name : String) (body : Option (List (String × Value)))

/-- Where a process stands. -/
inductive Process where
  | idle
  /-- Before the unlocked read of `shep.toml`. -/
  | migrating
  /-- Before `shep.toml`'s lock, with the names the unlocked read declared,
  none where it could not parse the text. -/
  | waiting (declared : Option (List String))
  /-- Holding `shep.toml`'s lock, before `dogs.toml`'s. -/
  | taken (sections : Document) (left : ShepToml)
  /-- Holding both locks, before the replacement of `dogs.toml`. -/
  | moving (merged : Document) (moved : List String) (left : ShepToml)
  /-- Holding `shep.toml`'s lock, before its replacement. -/
  | striking (moved : List String) (left : ShepToml)
  | migrated (answer : Except DogMigrationError (List String))
  /-- Before the gate read of `dogs.toml`. -/
  | seeding (name : String) (defaults : Option (List (String × Value)))
  /-- Before `dogs.toml`'s lock. -/
  | sowing (name : String) (defaults : List (String × Value))
  /-- Holding `dogs.toml`'s lock, before its replacement. -/
  | planting (name : String) (merged : Document)
  | seeded (answer : Except DogMigrationError DefaultsOutcome)
  /-- Before `dogs.toml`'s lock. -/
  | setting (name : String) (body : Option (List (String × Value)))
  /-- Holding `dogs.toml`'s lock, before its replacement. -/
  | placing (name : String) (merged : Document)
  | placed (answer : Except DogError Unit)
  | crashed

/-- The first stand of a job. -/
def Job.first : Job → Process
  | .migrateDogSections => .migrating
  | .seedDogDefaults name defaults => .seeding name defaults
  | .setDogSection name body => .setting name body

/-- The two files, who holds the lock of each, and the processes. -/
structure World where
  shep : File ShepToml
  dogs : File Document
  shepLock : Option ℕ := none
  dogsLock : Option ℕ := none
  procs : ℕ → Process := fun _ => .idle

/-- What becomes of a step. -/
inductive Outcome where
  | done
  | failed
  /-- A replacement that is in place, its directory not flushed. -/
  | unflushed
  deriving Repr, DecidableEq

/-- What happens. -/
inductive Event where
  | start (p : ℕ) (job : Job)
  | act (p : ℕ) (outcome : Outcome)
  | crash (p : ℕ)
  /-- Something else replaces `shep.toml`, while no process holds its lock. -/
  | rewriteShep (file : File ShepToml)
  /-- Something else replaces `dogs.toml`, while no process holds its lock. -/
  | rewriteDogs (file : File Document)

/-- The file a replacement leaves. -/
def replace {α : Type} (outcome : Outcome) (file : File α) (doc : α) : File α :=
  match outcome with
  | .done | .unflushed => .doc doc
  | .failed => file

/-- `migrate_dog_sections`, up to the lock. -/
def unlockedRead (shep : File ShepToml) : Process :=
  match shep with
  | .missing => .migrated (.ok [])
  | .unreadable => .migrated (.error .read)
  | .broken _ => .waiting none
  | .doc doc =>
    if doc.declaredDogNames = [] ∧ doc.hasDogTable = false then .migrated (.ok [])
    else .waiting (some doc.declaredDogNames)

namespace World

/-- One process moves on. -/
def put (p : ℕ) (proc : Process) (w : World) : World :=
  { w with procs := Function.update w.procs p proc }

/-- `try_edit` up to its save, as far as `dogs.toml`'s lock. -/
def openLocked (p : ℕ) (declared : Option (List String)) (w : World) : World :=
  match ShepToml.opened w.shep with
  | none => w.put p (.migrated (.error .toml))
  | some doc =>
    match taking declared doc with
    | .error e => w.put p (.migrated (.error e))
    | .ok taken =>
      if taken.isEmpty then { w.put p (.striking [] doc.struck) with shepLock := some p }
      else { w.put p (.taken taken doc.struck) with shepLock := some p }

/-- `move_sections`, from `dogs.toml`'s lock to its replacement. -/
def lockDogs (p : ℕ) (taken : Document) (left : ShepToml) (w : World) : World :=
  match merging taken w.dogs with
  | .error e => { w.put p (.migrated (.error e)) with shepLock := none }
  | .ok merged => { w.put p (.moving merged taken.keys left) with dogsLock := some p }

/-- `write_dogs_config`, at the end of `move_sections`. -/
def moveSections (p : ℕ) (outcome : Outcome) (merged : Document) (moved : List String)
    (left : ShepToml) (w : World) : World :=
  let w := { w with dogs := replace outcome w.dogs merged, dogsLock := none }
  if outcome = .done then w.put p (.striking moved left)
  else { w.put p (.migrated (.error .write)) with shepLock := none }

/-- `save`, at the end of `try_edit`. -/
def save (p : ℕ) (outcome : Outcome) (moved : List String) (left : ShepToml) (w : World) :
    World :=
  let w := { w with shep := replace outcome w.shep left, shepLock := none }
  w.put p (.migrated (if outcome = .done then .ok moved else .error .toml))

/-- `seed_dog_defaults`, up to the lock. -/
def gateRead (p : ℕ) (name : String) (defaults : Option (List (String × Value))) (w : World) :
    World :=
  match readDogsDocument w.dogs, defaults with
  | .error e, _ => w.put p (.seeded (.error e))
  | .ok _, none => w.put p (.seeded (.ok .unreadable))
  | .ok _, some [] => w.put p (.seeded (.ok .empty))
  | .ok _, some (entry :: entries) => w.put p (.sowing name (entry :: entries))

/-- `seed_dog_defaults`, from the lock to the replacement. -/
def lockSeed (p : ℕ) (name : String) (defaults : List (String × Value)) (w : World) : World :=
  match readDogsDocument w.dogs with
  | .error e => w.put p (.seeded (.error e))
  | .ok merged =>
    if merged.contains name then w.put p (.seeded (.ok .kept))
    else
      { w.put p (.planting name (merged.insert name (.table defaults))) with dogsLock := some p }

/-- The document `set_dog_section` starts from, with its refusals. -/
def existing : File Document → Except DogError Document
  | .missing => .ok ∅
  | .unreadable => .error .io
  | .broken _ => .error .config
  | .doc doc => .ok doc

/-- `set_dog_section`, from the lock to the replacement. -/
def lockSet (p : ℕ) (name : String) (body : Option (List (String × Value))) (w : World) : World :=
  match existing w.dogs, body with
  | .error e, _ => w.put p (.placed (.error e))
  | .ok _, none => w.put p (.placed (.error .config))
  | .ok doc, some entries =>
    if loads (doc.insert name (.table entries)) then
      { w.put p (.placing name (doc.insert name (.table entries))) with dogsLock := some p }
    else w.put p (.placed (.error .config))

/-- The replacement of `dogs.toml` by one of its other two writers. -/
def writeDogs (p : ℕ) (outcome : Outcome) (merged : Document) (answer : Process) (w : World) :
    World :=
  { w with dogs := replace outcome w.dogs merged, dogsLock := none }.put p answer

/-- One step of a process. A lock that is held is waited for. -/
def act (p : ℕ) (outcome : Outcome) (w : World) : World :=
  match w.procs p with
  | .idle | .migrated _ | .seeded _ | .placed _ | .crashed => w
  | .migrating =>
    if outcome = .done then w.put p (unlockedRead w.shep) else w.put p (.migrated (.error .read))
  | .waiting declared =>
    if outcome ≠ .done then w.put p (.migrated (.error .toml))
    else if w.shepLock = none then w.openLocked p declared
    else w
  | .taken sections left =>
    if outcome ≠ .done then { w.put p (.migrated (.error .lock)) with shepLock := none }
    else if w.dogsLock = none then w.lockDogs p sections left
    else w
  | .moving merged moved left => w.moveSections p outcome merged moved left
  | .striking moved left => w.save p outcome moved left
  | .seeding name defaults =>
    if outcome = .done then w.gateRead p name defaults else w.put p (.seeded (.error .readDogs))
  | .sowing name defaults =>
    if outcome ≠ .done then w.put p (.seeded (.error .lock))
    else if w.dogsLock = none then w.lockSeed p name defaults
    else w
  | .planting _ merged =>
    w.writeDogs p outcome merged
      (.seeded (if outcome = .done then .ok .written else .error .write))
  | .setting name body =>
    if outcome ≠ .done then w.put p (.placed (.error .io))
    else if w.dogsLock = none then w.lockSet p name body
    else w
  | .placing _ merged =>
    w.writeDogs p outcome merged (.placed (if outcome = .done then .ok () else .error .io))

/-- A process ends where it stands, and its locks with it. -/
def crash (p : ℕ) (w : World) : World :=
  match w.procs p with
  | .idle | .migrated _ | .seeded _ | .placed _ | .crashed => w
  | _ =>
    { w.put p .crashed with
      shepLock := if w.shepLock = some p then none else w.shepLock
      dogsLock := if w.dogsLock = some p then none else w.dogsLock }

/-- One event. -/
def next (w : World) : Event → World
  | .start p job =>
    match w.procs p with
    | .idle => w.put p job.first
    | _ => w
  | .act p outcome => w.act p outcome
  | .crash p => w.crash p
  | .rewriteShep file => if w.shepLock = none then { w with shep := file } else w
  | .rewriteDogs file => if w.dogsLock = none then { w with dogs := file } else w

end World

end Sections

end Shep
