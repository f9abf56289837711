import Mathlib.Data.Finset.Sort
import Mathlib.Data.String.Basic
import Shep.Common.Nest

/-!
# Copy — the plan of a dog's table

`commands/copy/plan.rs`, with `resolve_keys` of `address.rs`: what a copy of
a dog's settings writes and what it lists. A JSON value is a table, or one of
the values that are none; those are a parameter.
-/

namespace Shep

namespace Copy

/-- A key of a table. -/
abbrev Key := String

/-- A JSON value: an object, or a value `α` that is none. -/
abbrev Value (α : Type) := Nest Key α

variable {α : Type}

/-- `join(".")` -/
def dotted (keys : List Key) : String := ".".intercalate keys

/-- `CopyRefusal`, of a plan; `panicked` is an index out of range. -/
inductive CopyRefusal where
  | Usage (message : String)
  | MissingSource (message : String)
  | Refused (message : String)
  | panicked
  deriving Repr, DecidableEq

/-- `ChangeKind` -/
inductive ChangeKind where
  | Added
  | Changed
  | Removed
  deriving Repr, DecidableEq

/-- `Change` -/
structure Change (α : Type) where
  key : String
  kind : ChangeKind
  old : Option (Value α)
  new : Option (Value α)

/-- `Write::DogTable` -/
structure Write (α : Type) where
  dog : String
  table : Value α

/-- `Plan` -/
structure Plan (α : Type) where
  changes : List (Change α)
  write : Option (Write α)

/-- `Sides` -/
structure Sides where
  source : String
  target : String

/-! ## Addresses -/

/-- `dog_table` -/
def dog_table (config : Value α) (dog : String) : Option (Value α) :=
  (config.get "dogs").bind (·.get dog)

/-- `holds` -/
def holds (table : Option (Value α)) (key : Key) : Bool := table.any fun v => (v.get key).isSome

/-- `longest_key` -/
def longest_key (rest : List Key) (source target : Option (Value α)) : List Key :=
  let taken := (List.range' 1 rest.length).reverse.find? fun len =>
    holds source (dotted (rest.take len)) || holds target (dotted (rest.take len))
  rest.take (taken.getD 1)

/-- `resolve_keys`, of at most so many keys. -/
def resolveFrom : ℕ → List Key → Option (Value α) → Option (Value α) → List Key
  | 0, _, _, _ => []
  | _, [], _, _ => []
  | count + 1, rest, src, tgt =>
    let taken := longest_key rest src tgt
    let key := dotted taken
    key :: resolveFrom count (rest.drop taken.length) (src.bind (·.get key)) (tgt.bind (·.get key))

/-- `resolve_keys` -/
def resolve_keys (rest : List Key) (source target : Option (Value α)) : List Key :=
  resolveFrom rest.length rest source target

/-! ## Writing and removing -/

/-- `child_key` -/
def child_key (key name : String) : String := if key = "" then name else key ++ "." ++ name

/-- `write_at` -/
def write_at : Value α → List Key → String → Value α → Except String (Value α)
  | _, [], _, value => .ok value
  | .leaf _, _ :: _, held, _ => .error held
  | .table names entries, head :: rest, held, value => do
    let root := Nest.table names entries
    let child ← write_at ((root.get head).getD .empty) rest (child_key held head) value
    pure (root.insert head child)

/-- `set_path` -/
def set_path (root : Value α) (keys : List Key) (value : Value α) : Except String (Value α) :=
  write_at root keys "" value

/-- `remove_path` -/
def remove_path : Value α → List Key → Value α
  | root, [] => root
  | .leaf a, _ :: _ => .leaf a
  | .table names entries, [head] => (Nest.table names entries).erase head
  | .table names entries, head :: next :: rest =>
    match (Nest.table names entries).get head with
    | none => .table names entries
    | some child => (Nest.table names entries).insert head (remove_path child (next :: rest))

/-! ## Excepts -/

/-- The steps `check_except` takes, and where they end. -/
def descend : Value α → List Key → List Key × Value α
  | node, [] => ([], node)
  | node, key :: rest =>
    match node.get key with
    | none => ([], node)
    | some child => ((descend child rest).1.cons key, (descend child rest).2)

/-- `check_except`, of one spec. -/
def check_spec (source_here : Value α) (path : String) (spec : List Key) :
    Except CopyRefusal Unit :=
  if spec = [] then .error .panicked
  else
    let (walked, node) := descend source_here spec.dropLast
    if node.isTable then .ok ()
    else
      let held := if walked = [] then path else path ++ "." ++ dotted walked
      .error (.Usage ("`--except " ++ dotted spec ++ "` cannot be honored: `" ++ held ++
        "` holds a value that is not a table"))

/-- `check_except` -/
def check_except (source_here : Value α) (path : String) (except : List (List Key)) :
    Except CopyRefusal Unit := except.forM (check_spec source_here path)

/-- `nested_excepts` -/
def nested_excepts (except : List (List Key)) (key : Key) : List (List Key) :=
  except.filterMap fun path => if path.head? = some key then some path.tail else none

/-! ## Merging -/

/-- `merge` without `replace`: each key of the source is skipped or written
into the target's table. -/
def overlay : Option (Value α) → Value α → List (List Key) → Value α
  | _, .leaf a, _ => .leaf a
  | target, .table names entries, except =>
    .ofFn ((target.elim ∅ Nest.keys) ∪ names) fun key =>
      if h : key ∈ names then
        if [] ∈ nested_excepts except key then target.bind (·.get key)
        else some (overlay (target.bind (·.get key)) (entries ⟨key, h⟩) (nested_excepts except key))
      else target.bind (·.get key)

/-- What `merge` with `replace` does for one except. -/
def restore (target : Option (Value α)) (out : Value α) (path : List Key) :
    Except CopyRefusal (Value α) :=
  match target.bind (·.walk path) with
  | none => .ok (remove_path out path)
  | some value => (set_path (remove_path out path) path value).mapError fun held =>
      .Refused ("`" ++ held ++ "` under the copied path holds a value that is not a table, so " ++
        "`--except " ++ dotted path ++ "` has nowhere to put the target's own value back")

/-- `merge` -/
def merge (target : Option (Value α)) (source : Value α) (replace : Bool)
    (except : List (List Key)) : Except CopyRefusal (Value α) :=
  if replace then except.foldlM (restore target) source else .ok (overlay target source except)

/-! ## Changes -/

/-- The names of a table, in order. -/
def sorted (names : Finset Key) : List Key := names.sort (· ≤ ·)

/-- `collect_changes`, of a value that is only there afterwards. -/
def collect_added : Value α → String → List (Change α)
  | .leaf a, key => [⟨key, .Added, none, some (.leaf a)⟩]
  | .table names entries, key =>
    (sorted names).flatMap fun name =>
      if h : name ∈ names then collect_added (entries ⟨name, h⟩) (child_key key name) else []

variable [DecidableEq α]

/-- `collect_changes`, of a value that was there before. -/
def collect_from : Value α → Option (Value α) → String → List (Change α)
  | .table names entries, none, key =>
    (sorted names).flatMap fun name =>
      if h : name ∈ names then collect_from (entries ⟨name, h⟩) none (child_key key name) else []
  | .table names entries, some (.table names' entries'), key =>
    (sorted (names ∪ names')).flatMap fun name =>
      let child := child_key key name
      if h : name ∈ names then
        collect_from (entries ⟨name, h⟩) ((Nest.table names' entries').get name) child
      else ((Nest.table names' entries').get name).elim [] (collect_added · child)
  | .leaf a, none, key => [⟨key, .Removed, some (.leaf a), none⟩]
  | before, some after, key =>
    if before = after then [] else [⟨key, .Changed, some before, some after⟩]

/-- `collect_changes` -/
def collect_changes (before after : Option (Value α)) (key : String) : List (Change α) :=
  match before, after with
  | some before, after => collect_from before after key
  | none, some after => collect_added after key
  | none, none => []

/-! ## Plans -/

/-- What a plan is made of: the source's value at the copied path, the
target's table, the excepts as they are read, and the table to write. -/
structure Draft (α : Type) where
  source_here : Value α
  before : Value α
  except : List (List Key)
  after : Value α

/-- What `plan_dog` computes before it compares. -/
def draft (sides : Sides) (dog : String) (keys : List Key) (except : List (List Key))
    (replace : Bool) (source target : Value α) : Except CopyRefusal (Draft α) :=
  let source_table := dog_table source dog
  let source_here := if keys = [] then source_table else source_table.bind (·.walk keys)
  match source_here with
  | none => .error (.MissingSource (
      if source_table.isNone then
        "no `" ++ sides.source ++ ".dogs." ++ dog ++ "`: that sheep has no table for the dog `" ++
          dog ++ "`"
      else "no `" ++ dotted keys ++ "` under `" ++ sides.source ++ ".dogs." ++ dog ++ "`"))
  | some source_here => do
    let before := ((dog_table target dog).filter Nest.isTable).getD .empty
    let target_here := if keys = [] then some before else before.walk keys
    let except := except.map (resolve_keys · (some source_here) target_here)
    check_except source_here (sides.source ++ ".dogs." ++ dog) except
    let after ←
      if keys = [] then merge (some before) source_here replace except
      else do
        let merged ← merge (before.walk keys) source_here replace except
        (set_path before keys merged).mapError fun held =>
          let place := sides.target ++ ".dogs." ++ dog
          .Refused ("`" ++ (if held = "" then place else place ++ "." ++ held) ++
            "` holds a value that is not a table, and a copy onto `" ++ dotted keys ++
            "` would replace it")
    if after.isTable then pure ⟨source_here, before, except, after⟩
    else .error (.Refused ("`" ++ sides.source ++ ".dogs." ++ dog ++ "` holds a value that is " ++
      "not a table, so there is no table to copy onto `" ++ sides.target ++ "`"))

/-- The change of the copied path itself is named by the path's last key. -/
def rename (keys : List Key) (change : Change α) : Change α :=
  if change.key = "" then { change with key := keys.getLast?.getD "" } else change

/-- The changes `plan_dog` lists. -/
def listed (keys : List Key) (before after : Value α) : List (Change α) :=
  let before_here := if keys = [] then some before else before.walk keys
  let after_here := if keys = [] then some after else after.walk keys
  (collect_changes before_here after_here "").map (rename keys)

/-- `plan_dog` -/
def plan_dog (sides : Sides) (dog : String) (keys : List Key) (except : List (List Key))
    (replace : Bool) (source target : Value α) : Except CopyRefusal (Plan α) := do
  let drafted ← draft sides dog keys except replace source target
  let changes := listed keys drafted.before drafted.after
  pure ⟨changes, if changes.isEmpty then none else some ⟨dog, drafted.after⟩⟩

end Copy

end Shep
