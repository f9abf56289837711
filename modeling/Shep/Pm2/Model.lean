import Shep.Normalize.Model
import Shep.Values.Model

/-!
# Pm2 — reading a dump into a Flockfile

`import/pm2`: `env.rs`'s split of a row's environment, `convert.rs`'s
collapse of a dump's rows into apps, which are normalized, and `render.rs`'s
Flockfile. `flockfile/raw.rs` and `file.rs` read the Flockfile back, of the
keys an import writes. The text of a TOML document is a parameter.
-/

namespace Shep

namespace Pm2

open Template (Text)
open Normalize (AppConfig Grammars NormalizeError normalizeWithHome)
open Values (MemSize UpDuration)

/-! ## The dump -/

/-- `DumpRow`. -/
structure DumpRow where
  name : Text
  pmExecPath : Text
  args : List Text := []
  pmCwd : Option Text := none
  execInterpreter : Option Text := none
  execMode : Option Text := none
  autorestart : Option Bool := none
  restartDelay : Option UInt64 := none
  mergeLogs : Option Bool := none
  maxMemoryRestart : Option UInt64 := none
  env : Std.ExtTreeMap String Text := ∅
  declared : Std.ExtTreeMap String (Std.ExtTreeMap String Text) := ∅
  unrepresentable : List String := []

/-! ## The environment of a row -/

/-- `SESSION_SHELL`. -/
def sessionShell : List String :=
  ["COLORTERM", "DBUS_SESSION_BUS_ADDRESS", "DISPLAY", "EDITOR", "HISTFILE", "HISTSIZE", "HOME",
    "HOSTNAME", "LANG", "LOGNAME", "LS_COLORS", "MAIL", "MOTD_SHOWN", "OLDPWD", "PAGER", "PATH",
    "PWD", "SHELL", "SHLVL", "TERM", "TMPDIR", "USER", "VISUAL", "_"]

/-- `SESSION_SHELL_PREFIXES`. -/
def sessionShellPrefixes : List String := ["LC_", "SSH_", "SUDO_", "XDG_"]

/-- `PM2_INJECTED`. -/
def pm2Injected : List String := ["NODE_APP_INSTANCE", "pm_id", "unique_id"]

/-- `PM2_INJECTED_PREFIXES`. -/
def pm2InjectedPrefixes : List String := ["PM2_"]

/-- `PM2_INSTANCE_VAR`. -/
def pm2InstanceVar : String := "NODE_APP_INSTANCE"

/-- `in_closed_set`. -/
def inClosedSet (key : String) (exact prefixes : List String) : Bool :=
  exact.contains key || prefixes.any fun start => start.toList.isPrefixOf key.toList

/-- `is_session_shell`. -/
def isSessionShell (key : String) : Bool := inClosedSet key sessionShell sessionShellPrefixes

/-- `is_pm2_injected`. -/
def isPm2Injected (key : String) : Bool := inClosedSet key pm2Injected pm2InjectedPrefixes

/-- `AppEnv`. -/
structure AppEnv where
  env : Std.ExtTreeMap String Text
  inherited : List String
  instanceVar : Option String

/-- The union of a row's `env_<name>` maps, a later one over an earlier. -/
def declaredUnion (declared : Std.ExtTreeMap String (Std.ExtTreeMap String Text)) :
    Std.ExtTreeMap String Text :=
  declared.toList.foldl (fun union entry =>
    entry.2.toList.foldl (fun union pair => union.insert pair.1 pair.2) union) ∅

/-- The keys `split` names as inherited, of those a row has. -/
def isInherited (declared : Std.ExtTreeMap String Text) (key : String) : Bool :=
  !declared.contains key && key != pm2InstanceVar && !isSessionShell key && !isPm2Injected key

/-- `split`. -/
def split (row : DumpRow) : AppEnv :=
  let union := declaredUnion row.declared
  { env := union.map fun key value => row.env[key]?.getD value
    inherited := row.env.keys.filter (isInherited union)
    instanceVar :=
      if row.env.contains pm2InstanceVar && !union.contains pm2InstanceVar then some pm2InstanceVar
      else none }

/-! ## Apps -/

/-- The fields of `AppConfig` that `normalize` does not read: those an import
maps, and the others. -/
structure Fields (Others : Type) where
  interpreter : Option Text
  autorestart : Bool
  restartDelay : Option UpDuration
  reusePort : Bool
  others : Others

/-- `AppConfig`. -/
abbrev App (Others : Type) := AppConfig (Fields Others)

variable {Others : Type}

/-- `AppConfig::minimal`, with the defaults of the other fields. -/
def minimal (defaults : Others) (name script : Text) : App Others where
  name := name
  script := script
  args := []
  cwd := none
  sandbox := none
  env := ∅
  environment := none
  instances := 1
  killSignal := none
  actionTimeout := 3000
  maxMemory := none
  memoryEnforce := .poll
  maxCpuCores := none
  maxTasks := none
  watch := false
  ignoreWatch := []
  watchDelay := none
  watchOptions := []
  cronRestart := none
  cronTimezone := none
  dependsOn := []
  outFile := none
  errFile := none
  mergeLogs := false
  levelRules := []
  dogs := ∅
  pty := false
  listen := ∅
  readinessProbe := none
  livenessProbe := none
  rest := ⟨none, true, none, false, defaults⟩

/-- `ImportNote`. -/
inductive ImportNote where
  | clusterMode (app : Text) (instances : ℕ)
  | inheritedEnv (app : Text) (key : String)
  | unrepresentableEnv (app : Text) (key : String)
  | instanceVar (app : Text) (var : String)
  deriving Repr, DecidableEq

/-- `Imported`. -/
structure Imported (Others : Type) where
  apps : List (App Others)
  notes : List ImportNote

/-- `ConvertError::Rejected`, with the reason before it is rendered. -/
structure ConvertError where
  name : Text
  reason : NormalizeError

/-- The rows of a name, the first apart. -/
structure Group where
  first : DumpRow
  others : List DumpRow

/-- How many they are, as a `u32`. -/
def Group.instances (group : Group) : ℕ := (group.others.length + 1) % 2 ^ 32

/-- `{{instance}}`. -/
def instanceTemplate : Text := Template.braced ['i', 'n', 's', 't', 'a', 'n', 'c', 'e']

/-- The env of an app: what the rows declared, and the template for the
variable pm2 told the instance by. -/
def appEnvOf (row : DumpRow) : Std.ExtTreeMap String Text :=
  match (split row).instanceVar with
  | some var => (split row).env.insert var instanceTemplate
  | none => (split row).env

/-- The app `convert_group` makes of a group. -/
def groupApp (defaults : Others) (name : Text) (group : Group) : App Others :=
  let first := group.first
  let app := minimal defaults name first.pmExecPath
  { app with
    args := first.args
    cwd := first.pmCwd
    mergeLogs := first.mergeLogs.getD app.mergeLogs
    maxMemory := first.maxMemoryRestart.map UInt64.toNat
    instances := group.instances
    env := appEnvOf first
    rest :=
      { app.rest with
        interpreter := first.execInterpreter.filter (· != "none".toList)
        autorestart := first.autorestart.getD app.rest.autorestart
        restartDelay := first.restartDelay.map UpDuration.mk } }

/-- The notes of `convert_group`. -/
def groupNotes (name : Text) (group : Group) : List ImportNote :=
  let first := group.first
  (if first.execMode = some "cluster_mode".toList then [.clusterMode name group.instances]
    else []) ++
    (split first).instanceVar.toList.map (.instanceVar name) ++
    (split first).inherited.map (.inheritedEnv name) ++
    first.unrepresentable.map (.unrepresentableEnv name)

/-- `convert_group`. -/
def convertGroup (defaults : Others) (name : Text) (group : Group) :
    App Others × List ImportNote :=
  (groupApp defaults name group, groupNotes name group)

/-- What `convert` runs with: the grammars and homes of `normalize`, and the
defaults. -/
structure Machine (Others : Type) where
  grammars : Grammars
  home : Option Text
  shepHome : Option Text
  defaults : Others

/-- `normalize`. -/
def Machine.normalize (m : Machine Others) (app : App Others) :
    Except NormalizeError (App Others) :=
  normalizeWithHome m.grammars m.home m.shepHome app

/-- The names in the order the dump first mentions them, and their rows. -/
abbrev Groups := List Text × Std.ExtTreeMap Text Group

/-- One row of `convert`'s first loop. -/
def groupRow (s : Groups) (row : DumpRow) : Groups :=
  match s.2[row.name]? with
  | some group => (s.1, s.2.insert row.name ⟨group.first, group.others ++ [row]⟩)
  | none => (s.1 ++ [row.name], s.2.insert row.name ⟨row, []⟩)

/-- The rows of a dump, grouped. -/
def groupRows (rows : List DumpRow) : Groups := rows.foldl groupRow ([], ∅)

/-- One name of `convert`'s second loop. Every name has its rows. -/
def convertName (m : Machine Others) (groups : Std.ExtTreeMap Text Group)
    (imported : Imported Others) (name : Text) : Except ConvertError (Imported Others) :=
  match groups[name]? with
  | none => .ok imported
  | some group =>
    let (app, notes) := convertGroup m.defaults name group
    match m.normalize app with
    | .error reason => .error ⟨name, reason⟩
    | .ok resolved => .ok ⟨imported.apps ++ [resolved], imported.notes ++ notes⟩

/-- `convert`. -/
def convert (m : Machine Others) (rows : List DumpRow) :
    Except ConvertError (Imported Others) :=
  (groupRows rows).1.foldlM (convertName m (groupRows rows).2) ⟨[], []⟩

/-! ## The Flockfile -/

/-- A TOML value, of the kinds an import writes. -/
inductive Value where
  | string (s : Text)
  | integer (n : ℕ)
  | boolean (b : Bool)
  | array (items : List Text)
  | table (entries : List (String × Text))
  deriving Repr, DecidableEq

/-- A TOML document: its `[[app]]` tables. -/
abbrev Document := List (List (String × Value))

/-- A key of a table, unless it is skipped. -/
def fieldUnless (skip : Bool) (key : String) (value : Value) : List (String × Value) :=
  if skip then [] else [(key, value)]

/-- `Rendered` of an app, as its table. -/
def rendered (app : App Others) : List (String × Value) :=
  [("name", .string app.name), ("script", .string app.script)] ++
    fieldUnless app.args.isEmpty "args" (.array app.args) ++
    fieldUnless app.cwd.isNone "cwd" (.string (app.cwd.getD [])) ++
    fieldUnless app.rest.interpreter.isNone "interpreter"
      (.string (app.rest.interpreter.getD [])) ++
    fieldUnless (app.instances == 1) "instances" (.integer app.instances) ++
    fieldUnless app.rest.autorestart "autorestart" (.boolean app.rest.autorestart) ++
    fieldUnless app.rest.restartDelay.isNone "restart_delay"
      (.string (app.rest.restartDelay.getD ⟨0⟩).display.toList) ++
    fieldUnless app.maxMemory.isNone "max_memory"
      (.string (MemSize.mk (UInt64.ofNat (app.maxMemory.getD 0))).display.toList) ++
    fieldUnless (!app.mergeLogs) "merge_logs" (.boolean app.mergeLogs) ++
    fieldUnless (!app.rest.reusePort) "reuse_port" (.boolean app.rest.reusePort) ++
    fieldUnless app.env.isEmpty "env" (.table app.env.toList)

/-- The document of `flockfile`. -/
def document (apps : List (App Others)) : Document := apps.map rendered

/-- `TOML_PRIVATE_DATETIME_KEY`. -/
def tomlPrivateDatetimeKey : String := "$__toml_private_datetime"

/-- `deserialize_env`, of string values: a table whose first key is the
marker stands for a bare date. -/
def deserializeEnv (entries : List (String × Text)) : Option (Std.ExtTreeMap String Text) :=
  if entries.head?.map Prod.fst = some tomlPrivateDatetimeKey then none else some (.ofList entries)

/-- One key of an `[[app]]` table read into an app. -/
def readField (app : App Others) : String × Value → Option (App Others)
  | ("name", .string name) => some { app with name := name }
  | ("script", .string script) => some { app with script := script }
  | ("args", .array args) => some { app with args := args }
  | ("cwd", .string cwd) => some { app with cwd := some cwd }
  | ("interpreter", .string interpreter) =>
    some { app with rest := { app.rest with interpreter := some interpreter } }
  | ("instances", .integer n) => if n < 2 ^ 32 then some { app with instances := n } else none
  | ("autorestart", .boolean b) => some { app with rest := { app.rest with autorestart := b } }
  | ("restart_delay", .string s) =>
    match UpDuration.fromStr (String.ofList s) with
    | .error _ => none
    | .ok delay => some { app with rest := { app.rest with restartDelay := some delay } }
  | ("max_memory", .string s) =>
    match MemSize.fromStr (String.ofList s) with
    | .error _ => none
    | .ok size => some { app with maxMemory := some size.bytes.toNat }
  | ("merge_logs", .boolean b) => some { app with mergeLogs := b }
  | ("reuse_port", .boolean b) => some { app with rest := { app.rest with reusePort := b } }
  | ("env", .table entries) =>
    match deserializeEnv entries with
    | none => none
    | some env => some { app with env := env }
  | _ => none

/-- `FlockfileError`, of the documents an import writes. -/
inductive FlockfileError where
  | parse
  | noApps
  | sandboxKeyRemoved (name : Text)
  deriving Repr, DecidableEq

/-- The TOML backend: a document's text, and the document of a text. -/
structure Toml where
  print : Document → Text
  read : Text → Option Document

/-- `render::flockfile`. -/
def flockfile (toml : Toml) (apps : List (App Others)) : Text := toml.print (document apps)

/-- `Flockfile::parse`. -/
def parseFlockfile (toml : Toml) (defaults : Others) (source : Text) :
    Except FlockfileError (List (App Others)) :=
  match toml.read source with
  | none => .error .parse
  | some tables =>
    match tables.mapM fun table => table.foldlM readField (minimal defaults [] []) with
    | none => .error .parse
    | some apps =>
      if apps.isEmpty then .error .noApps
      else match apps.find? fun app => app.sandbox.isSome with
        | some app => .error (.sandboxKeyRemoved app.name)
        | none => .ok apps

end Pm2

end Shep
