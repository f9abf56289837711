import Mathlib.Data.Finset.Insert
import Shep.Common.Run
import Shep.Common.Table

/-!
# Gate — what a dog may ask for, and who says so

`permissions/mod.rs`'s grants, `KnownDogs` of `rpc/context.rs`, and the path
an `EnableDog` takes through `rpc/dispatch.rs`: on a dog's connection it is
checked and its grants are pinned to those on record, and from either side
it is recorded ahead of the start and put back when the start is refused.
Each is one acquisition of the books' lock, and requests run on tasks of
their own: any of them may move next.

What the supervisor answers a start with is the event's, and so is whether
`dog_app` refuses the spec before anything is recorded.
-/

namespace Shep

namespace Gate

/-! ## Grants -/

/-- `Permission`. -/
inductive Permission where
  | flockRead
  | flockControl
  | flockEdit
  | logsRead
  | logsManage
  | events (topic : String)
  | secretsRead (scope : String)
  | secretsWrite (space : String)
  | dogsControl
  | dogsTrigger (name : String)
  | shepherdControl
  deriving Repr, DecidableEq

/-- The name a grant is written with. -/
def Permission.toString : Permission → String
  | flockRead => "flock.read"
  | flockControl => "flock.control"
  | flockEdit => "flock.edit"
  | logsRead => "logs.read"
  | logsManage => "logs.manage"
  | events topic => "events:" ++ topic
  | secretsRead scope => "secrets.read:" ++ scope
  | secretsWrite space => "secrets.write:" ++ space
  | dogsControl => "dogs.control"
  | dogsTrigger name => "dogs.trigger:" ++ name
  | shepherdControl => "shepherd.control"

/-- `Grants`: the names an operator wrote. -/
abbrev Grants := Finset String

def Grants.allows (grants : Grants) (permission : Permission) : Bool :=
  decide (permission.toString ∈ grants)

/-- `Entry`. -/
structure Entry where
  /-- `none` for an undeclared dog, which keeps full access. -/
  grants : Option Grants := none
  events : List String := []
  deriving DecidableEq

/-- `KnownDogs`. -/
abbrev KnownDogs := Std.ExtTreeMap String Entry

namespace KnownDogs

variable (known : KnownDogs) (name : String)

def recorded : Option (Option Grants) := (known[name]?).map Entry.grants

def grants : Option Grants := (known[name]?).bind Entry.grants

def events : List String := ((known[name]?).map Entry.events).getD []

/-- `replace`, which hands back `known[name]?`. -/
def replace (entry : Entry) : KnownDogs := known.insert name entry

def restore (held : Option Entry) : KnownDogs :=
  match held with
  | some entry => known.insert name entry
  | none => known.erase name

end KnownDogs

/-! ## Enabling a dog -/

/-- Whose connection a request came on. -/
inductive Caller where
  | operator
  | dog (name : String)
  deriving Repr, DecidableEq

/-- What an `EnableDog` carries of a dog's source. -/
structure EnableDog where
  name : String
  grants : Option Grants
  events : List String := []
  deriving DecidableEq

def EnableDog.entry (enable : EnableDog) : Entry := ⟨enable.grants, enable.events⟩

/-- Where a request stands. The revisions are the model's own: how often the
name's entry had been written when the request last looked at it. -/
inductive Point where
  /-- `check` is next. -/
  | arrived
  /-- `pin_grants` is next. -/
  | checked
  /-- `replace` is next: the operator's request, or a dog's as pinned. -/
  | ready (revision : ℕ)
  /-- `start_dog` is to answer. -/
  | waiting (held : Option Entry) (revision : ℕ)
  deriving DecidableEq

structure Asked where
  caller : Caller
  enable : EnableDog
  point : Point
  deriving DecidableEq

/-- What `start_dog` comes to. -/
inductive Started where
  /-- The row of the dog. -/
  | dog
  /-- The row of a sheep that holds the name. -/
  | sheep
  /-- `SpawnFailed`: the dog is registered all the same. -/
  | spawnFailed
  /-- Any other error. -/
  | failed
  deriving Repr, DecidableEq

/-- The answers a start is taken back for. -/
def Started.refused : Started → Bool
  | sheep | failed => true
  | dog | spawnFailed => false

/-- The books and every request that has not been answered. -/
structure Desk where
  known : KnownDogs
  requests : Std.ExtTreeMap ℕ Asked := ∅
  /-- The next request has this number. -/
  numbers : ℕ := 0
  /-- How often a name's entry has been written. -/
  revision : String → ℕ := fun _ => 0

inductive Event where
  | arrive (caller : Caller) (enable : EnableDog)
  | check (n : ℕ)
  | pin (n : ℕ)
  /-- `dog_app` refuses the spec. -/
  | invalid (n : ℕ)
  | record (n : ℕ)
  | answer (n : ℕ) (started : Started)
  /-- The deadline passes while `start_dog` is to answer. -/
  | expire (n : ℕ)
  deriving DecidableEq

namespace Desk

variable (d : Desk)

def forget (n : ℕ) : Desk := { d with requests := d.requests.erase n }

def goTo (n : ℕ) (asked : Asked) : Desk := { d with requests := d.requests.insert n asked }

/-- The entry of a name is written. -/
def write (name : String) (known : KnownDogs) : Desk :=
  { d with known, revision := Function.update d.revision name (d.revision name + 1) }

/-- `check`, on an `EnableDog`: a declared dog needs `dogs.control`. -/
def check (dog : String) : Bool := (d.known.grants dog).all fun grants => grants.allows .dogsControl

/-- `pin_grants`. -/
def pinGrants (enable : EnableDog) : EnableDog :=
  { enable with
    grants := (d.known.recorded enable.name).getD (some ∅)
    events := d.known.events enable.name }

/-- A new request: the control socket is the operator's. -/
def arrive (caller : Caller) (enable : EnableDog) : Desk :=
  let point := match caller with
    | .operator => .ready (d.revision enable.name)
    | .dog _ => .arrived
  { d.goTo d.numbers ⟨caller, enable, point⟩ with numbers := d.numbers + 1 }

def pin (n : ℕ) (asked : Asked) : Desk :=
  d.goTo n { asked with
    enable := d.pinGrants asked.enable
    point := .ready (d.revision asked.enable.name) }

/-- The grants are recorded and the start is queued. -/
def record (n : ℕ) (asked : Asked) : Desk :=
  let name := asked.enable.name
  (d.write name (d.known.replace name asked.enable.entry)).goTo n
    { asked with point := .waiting d.known[name]? (d.revision name + 1) }

/-- The start is answered. -/
def answer (n : ℕ) (name : String) (held : Option Entry) (started : Started) : Desk :=
  (if started.refused then d.write name (d.known.restore name held) else d).forget n

/-- One step of one request, if it stands where the step begins. -/
def step (e : Event) : Option Desk :=
  match e with
  | .arrive caller enable => some (d.arrive caller enable)
  | .check n =>
    match d.requests[n]? with
    | some ⟨.dog dog, enable, .arrived⟩ =>
      some (if d.check dog then d.goTo n ⟨.dog dog, enable, .checked⟩ else d.forget n)
    | _ => none
  | .pin n =>
    match d.requests[n]? with
    | some ⟨caller, enable, .checked⟩ => some (d.pin n ⟨caller, enable, .checked⟩)
    | _ => none
  | .invalid n =>
    match d.requests[n]? with
    | some ⟨_, _, .ready _⟩ => some (d.forget n)
    | _ => none
  | .record n =>
    match d.requests[n]? with
    | some ⟨caller, enable, .ready revision⟩ => some (d.record n ⟨caller, enable, .ready revision⟩)
    | _ => none
  | .answer n started =>
    match d.requests[n]? with
    | some ⟨_, enable, .waiting held _⟩ => some (d.answer n enable.name held started)
    | _ => none
  | .expire n =>
    match d.requests[n]? with
    | some ⟨_, _, .waiting _ _⟩ => some (d.forget n)
    | _ => none

/-- One step of one request. -/
def Step (d : Desk) (e : Event) (d' : Desk) : Prop := d.step e = some d'

end Desk

end Gate

end Shep
