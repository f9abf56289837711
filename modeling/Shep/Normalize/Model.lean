import Mathlib.Data.String.Basic
import Shep.Common.Table
import Shep.Normalize.Probe

/-!
# Normalize — an app's config, validated

`config/normalize`: what a config is refused for, and the two things that
are rewritten in one that is not: a leading tilde of its four paths, and the
repeats in `depends_on`. Paths and template values are texts. The grammars
of other crates (cron patterns, globs, regexes, socket addresses) and the
float behind `max_cpu_cores` are parameters. The model is of the unix
builds: `cfg!(windows)` is false.
-/

namespace Shep

namespace Normalize

open Template (Text)

variable {Rest : Type}

/-! ## The config -/

inductive LineLevel where
  | trace
  | debug
  | info
  | warn
  | error
deriving DecidableEq, Repr

structure LevelRule where
  pattern : Text
  level : LineLevel
deriving DecidableEq, Repr

inductive MemoryEnforce where
  | poll
  | kernel
deriving DecidableEq, Repr

def MemoryEnforce.isKernel (m : MemoryEnforce) : Bool := m == .kernel

/-- One sheep's entry in a Flockfile: the fields `normalize` reads, a float
by its bits, a dog's table by its text, durations in milliseconds. The
others are in `rest`. -/
structure AppConfig (Rest : Type) where
  name : Text
  script : Text
  args : List Text
  cwd : Option Text
  sandbox : Option Text
  env : Std.ExtTreeMap String Text
  environment : Option Text
  instances : ℕ
  killSignal : Option Text
  actionTimeout : ℕ
  maxMemory : Option ℕ
  memoryEnforce : MemoryEnforce
  maxCpuCores : Option UInt64
  maxTasks : Option ℕ
  watch : Bool
  ignoreWatch : List Text
  watchDelay : Option ℕ
  watchOptions : List Text
  cronRestart : Option Text
  cronTimezone : Option Text
  dependsOn : List Text
  outFile : Option Text
  errFile : Option Text
  mergeLogs : Bool
  levelRules : List LevelRule
  dogs : Std.ExtTreeMap String Text
  pty : Bool
  listen : Std.ExtTreeMap String Text
  readinessProbe : Option ProbeConfig
  livenessProbe : Option ProbeConfig
  rest : Rest

/-- An address `SocketAddr` parses to. -/
inductive SocketAddr where
  | v4 (ip port : ℕ)
  | v6 (ip port flowinfo scope : ℕ)
deriving DecidableEq, Repr

inductive CronParseError where
  | pattern (pattern reason : Text)
  | timezone (name : Text)
deriving DecidableEq, Repr

inductive LevelRuleError where
  | tooManyRules (count limit : ℕ)
  | emptyPattern (level : LineLevel)
  | badPattern (pattern reason : Text)
deriving DecidableEq, Repr

/-- The parsers of other crates, and what the build is for. A glob and a
regex are refused with a reason. -/
structure Grammars where
  cron : Text → Option Text → Except CronParseError Unit
  timezone : Text → Bool
  glob : Text → Option Text
  regex : Text → Option Text
  address : Text → Option SocketAddr
  enforceable : UInt64 → Bool
  linux : Bool

/-! ## Refusals -/

/-- `NormalizeError`. A rejection another error renders is carried as that
error. -/
inductive NormalizeError where
  | missingName
  | invalidName (name : Text)
  | invalidEnvironment (name value : Text)
  | reservedEnvVar (name : Text) (var : String)
  | missingScript
  | zeroInstances
  | invalidCron (pattern reason : Text)
  | invalidTimezone (name : Text)
  | duplicateName (name : Text)
  | invalidProbe (probe : String) (reason : ProbeTargetError)
  | zeroFailureThreshold (probe : String)
  | intervalBelowMinimum (probe : String) (value min : ℕ)
  | zeroMaxMemory (name : Text)
  | memoryEnforceNeedsMaxMemory (name : Text)
  | memoryEnforceKernelUnsupported (name : Text)
  | maxCpuCoresOutOfRange (name : Text)
  | maxCpuCoresUnsupported (name : Text)
  | maxTasksOutOfRange (name : Text)
  | maxTasksUnsupported (name : Text)
  | ptyUnsupported (name : Text)
  | actionTimeoutTooLong (name : Text) (value max : ℕ)
  | invalidKillSignal (name value : Text)
  | watchWithoutCwd (name : Text)
  | tildeUser (name : Text) (field : String) (value : Text)
  | noHomeForTilde (name : Text) (field : String)
  | noShepHome (name : Text) (field : String)
  | zeroWatchDelay (name : Text)
  | invalidWatchGlob (name : Text) (field : String) (pattern reason : Text)
  | invalidLevelRule (name : Text) (reason : LevelRuleError)
  | badTemplate (name : Text) (field : String) (reason : Template.TemplateError)
  | secretInLogPath (name : Text) (field : String)
  | sharedLogPath (name : Text) (field : String)
  | selfDependency (name : Text)
  | instanceDependency (sheep target : Text)
  | emptyDogName (name : Text)
  | sandboxKeyRemoved (name : Text)
  | sandboxOnWindows (name : Text)
  | invalidListenName (name : Text) (listener : String)
  | invalidListenAddress (name : Text) (listener : String) (address : Text)
  | duplicateListenAddress (name : Text) (first second : String) (address : Text)
  | listenWithSandbox (name : Text)
  | listenOnWindows (name : Text)
deriving DecidableEq

/-- The verdict of a check. -/
abbrev Checked := Except NormalizeError Unit

/-- A refusal when `bad`. -/
def refuseIf (bad : Bool) (err : NormalizeError) : Checked := if bad then .error err else .ok ()

/-! ## Tildes -/

/-- Why a tilde was not expanded. -/
inductive TildeError where
  | otherUser
  | noHome
deriving DecidableEq, Repr

/-- `Path::join`: an absolute path replaces the other. -/
def join (home path : Text) : Text :=
  if path.head? = some '/' then path
  else if home = [] ∨ home.getLast? = some '/' then home ++ path
  else home ++ '/' :: path

/-- `expand_home_tilde`. -/
def expandHomeTilde (value : Text) (home : Option Text) : Except TildeError Text :=
  match value with
  | '~' :: rest =>
    if rest = [] ∨ rest.head? = some '/' then
      match home with
      | none => .error .noHome
      -- the separator is trimmed: a rest that looks absolute would discard the home
      | some home => .ok (join home (rest.dropWhile (· == '/')))
    else .error .otherUser
  | value => .ok value

/-- `expand_tilde`: the refusal names the sheep and the field. -/
def expandTilde (value : Text) (home : Option Text) (name : Text) (field : String) :
    Except NormalizeError Text :=
  match expandHomeTilde value home with
  | .ok path => .ok path
  | .error .otherUser => .error (.tildeUser name field value)
  | .error .noHome => .error (.noHomeForTilde name field)

/-- One of the paths that may be left out. -/
def expandSlot (slot : Option Text) (home : Option Text) (name : Text) (field : String) :
    Except NormalizeError (Option Text) :=
  match slot with
  | none => .ok none
  | some value => (expandTilde value home name field).map some

/-- `expand_paths`. -/
def expandPaths (app : AppConfig Rest) (home : Option Text) :
    Except NormalizeError (AppConfig Rest) := do
  let script ← expandTilde app.script home app.name "script"
  let cwd ← expandSlot app.cwd home app.name "cwd"
  let outFile ← expandSlot app.outFile home app.name "out_file"
  let errFile ← expandSlot app.errFile home app.name "err_file"
  return { app with script := script, cwd := cwd, outFile := outFile, errFile := errFile }

/-! ## Checks -/

/-- The checks of a list, up to the first refusal. -/
def allOk : List Checked → Checked
  | [] => .ok ()
  | check :: checks => match check with
    | .error err => .error err
    | .ok () => allOk checks

def validateName (name : Text) : Checked :=
  if name = [] then .error .missingName
  else refuseIf (name.any (fun c => c == '/' || c == '\\' || c == ':') || name == ['.'] ||
    name == ['.', '.']) (.invalidName name)

/-- `validate_sandbox_key`. -/
def validateSandboxKey (name : Text) (sandbox : Option Text) : Checked :=
  refuseIf sandbox.isSome (.sandboxKeyRemoved name)

/-- `ALL_ENVIRONMENTS`. -/
def allEnvironments : Text := ['a', 'l', 'l']

def validateEnvironment (name : Text) : Option Text → Checked
  | some environment => refuseIf (environment == allEnvironments || !Template.isName environment)
      (.invalidEnvironment name environment)
  | none => .ok ()

/-- The variables shep sets itself. -/
def reservedVars : List String := ["SHEP_INSTANCE", "SHEP_NAME", "SHEP_ENVIRONMENT"]

def validateReserved (name : Text) (env : Std.ExtTreeMap String Text) : Checked :=
  allOk (reservedVars.map fun var => refuseIf (env.contains var) (.reservedEnvVar name var))

/-- `validate_template`. -/
def validateTemplate (name : Text) (field : String) (shepHome : Option Text) (value : Text) :
    Checked :=
  match Template.validate value with
  | .error reason => .error (.badTemplate name field reason)
  | .ok () =>
    refuseIf (shepHome.isNone && Template.holdsShepHome value) (.noShepHome name field)

def validateEnv (name : Text) (shepHome : Option Text) (env : Std.ExtTreeMap String Text) :
    Checked :=
  allOk (env.toList.map fun entry =>
    validateTemplate name ("env." ++ entry.1) shepHome entry.2)

def validateArgs (name : Text) (shepHome : Option Text) (args : List Text) : Checked :=
  allOk (args.zipIdx.map fun arg =>
    validateTemplate name ("args[" ++ arg.2.repr ++ "]") shepHome arg.1)

/-- A log path as it is written: a template, with no secret in it. -/
def validateLogPath (name : Text) (field : String) (shepHome : Option Text) :
    Option Text → Checked
  | some value => allOk [validateTemplate name field shepHome value,
      refuseIf (Template.holdsSecret value) (.secretInLogPath name field)]
  | none => .ok ()

/-- A log path of an app that runs more than once: two slots that render
alike collide. -/
def validateShared (name : Text) (field : String) (shepHome : Option Text) :
    Option Text → Checked
  | some path => refuseIf (Template.renderPositional path name 0 shepHome ==
      Template.renderPositional path name 1 shepHome) (.sharedLogPath name field)
  | none => .ok ()

def validateCron (g : Grammars) : Option Text → Option Text → Checked
  | some pattern, timezone => match g.cron pattern timezone with
    | .ok () => .ok ()
    | .error (.pattern pattern reason) => .error (.invalidCron pattern reason)
    | .error (.timezone name) => .error (.invalidTimezone name)
  | none, some timezone => refuseIf (!g.timezone timezone) (.invalidTimezone timezone)
  | none, none => .ok ()

/-- Shortest `interval` a `liveness_probe` may name. -/
def MIN_LIVENESS_INTERVAL : ℕ := 1000

/-- Shortest `interval` a `readiness_probe` may name. -/
def MIN_READINESS_INTERVAL : ℕ := 1

/-- Longest `action_timeout` an app may name. -/
def MAX_ACTION_TIMEOUT : ℕ := 58000

def MAX_TASKS_LIMIT : ℕ := 4194304

def MAX_LEVEL_RULES : ℕ := 64

/-- `validate_probe`. -/
def validateProbe (name : String) (minInterval : ℕ) : Option ProbeConfig → Checked
  | none => .ok ()
  | some probe => match probe.parse with
    | .error reason => .error (.invalidProbe name reason)
    | .ok _ => allOk [
        refuseIf (probe.failureThreshold == 0) (.zeroFailureThreshold name),
        refuseIf (probe.interval < minInterval)
          (.intervalBelowMinimum name probe.interval minInterval)]

def validateMemory (g : Grammars) (name : Text) (maxMemory : Option ℕ) (m : MemoryEnforce) :
    Checked :=
  allOk [
    refuseIf (maxMemory == some 0) (.zeroMaxMemory name),
    refuseIf (m.isKernel && maxMemory.isNone) (.memoryEnforceNeedsMaxMemory name),
    refuseIf (m.isKernel && !g.linux) (.memoryEnforceKernelUnsupported name)]

def validateCores (g : Grammars) (name : Text) : Option UInt64 → Checked
  | some cores => allOk [
      refuseIf (!g.enforceable cores) (.maxCpuCoresOutOfRange name),
      refuseIf (!g.linux) (.maxCpuCoresUnsupported name)]
  | none => .ok ()

def validateTasks (g : Grammars) (name : Text) : Option ℕ → Checked
  | some tasks => allOk [
      refuseIf (!(1 ≤ tasks && tasks ≤ MAX_TASKS_LIMIT)) (.maxTasksOutOfRange name),
      refuseIf (!g.linux) (.maxTasksUnsupported name)]
  | none => .ok ()

/-- The spellings `KillSignal::parse` takes. -/
def killSignals : List Text :=
  ["SIGTERM", "TERM", "SIGINT", "INT", "SIGQUIT", "QUIT", "SIGUSR2", "USR2"].map String.toList

def validateKillSignal (name : Text) : Option Text → Checked
  | some signal => refuseIf (!killSignals.contains (signal.map Char.toUpper))
      (.invalidKillSignal name signal)
  | none => .ok ()

/-- `validate_watch_globs`. -/
def validateWatchGlobs (g : Grammars) (name : Text) (field : String) (patterns : List Text) :
    Checked :=
  allOk (patterns.map fun pattern => match g.glob pattern with
    | some reason => .error (.invalidWatchGlob name field pattern reason)
    | none => .ok ())

/-- `LevelMatcher::compile`, for its refusal. -/
def compile (g : Grammars) (rules : List LevelRule) : Option LevelRuleError :=
  if MAX_LEVEL_RULES < rules.length then some (.tooManyRules rules.length MAX_LEVEL_RULES)
  else rules.findSome? fun rule =>
    if rule.pattern = [] then some (.emptyPattern rule.level)
    else (g.regex rule.pattern).map (.badPattern rule.pattern)

def validateLevelRules (g : Grammars) (name : Text) (rules : List LevelRule) : Checked :=
  match compile g rules with
  | some reason => .error (.invalidLevelRule name reason)
  | none => .ok ()

/-- One listener, beside those seen. -/
def listenOne (g : Grammars) (name : Text) (seen : List (SocketAddr × String))
    (entry : String × Text) : Except NormalizeError (List (SocketAddr × String)) :=
  if entry.1 = "" ∨ ¬ entry.1.toList.all (fun c => c.isAlphanum || c == '_' || c == '-') then
    .error (.invalidListenName name entry.1)
  else
    match g.address entry.2 with
    | none => .error (.invalidListenAddress name entry.1 entry.2)
    | some parsed => match seen.lookup parsed with
      | some first => .error (.duplicateListenAddress name first entry.1 entry.2)
      | none => .ok ((parsed, entry.1) :: seen)

/-- `validate_listen`. -/
def validateListen (g : Grammars) (name : Text) (listen : Std.ExtTreeMap String Text)
    (sandboxed windows : Bool) : Checked :=
  if listen.isEmpty then .ok ()
  else if sandboxed then .error (.listenWithSandbox name)
  else
    match listen.toList.foldlM (listenOne g name) [] with
    | .error err => .error err
    | .ok _ => refuseIf windows (.listenOnWindows name)

/-- `validate_sandbox`. -/
def validateSandbox (name : Text) (dogTable windows : Bool) : Checked :=
  refuseIf (windows && dogTable) (.sandboxOnWindows name)

/-- The targets of `depends_on`, each once. -/
def dedupTargets (name : Text) (seen : List Text) : List Text → Except NormalizeError (List Text)
  | [] => .ok []
  | target :: targets =>
    if target = name then .error (.selfDependency name)
    else if target.contains ':' then .error (.instanceDependency name target)
    else if target ∈ seen then dedupTargets name seen targets
    else (dedupTargets name (target :: seen) targets).map (target :: ·)

/-! ## Normalizing -/

/-- What is checked on the paths as they are written. -/
def checkWritten (shepHome : Option Text) (app : AppConfig Rest) : Checked :=
  allOk [
    validateName app.name,
    validateSandboxKey app.name app.sandbox,
    validateEnvironment app.name app.environment,
    validateReserved app.name app.env,
    validateEnv app.name shepHome app.env,
    validateArgs app.name shepHome app.args,
    validateLogPath app.name "out_file" shepHome app.outFile,
    validateLogPath app.name "err_file" shepHome app.errFile,
    refuseIf (app.script == []) .missingScript]

/-- What is checked on the paths as they are expanded. -/
def checkExpanded (g : Grammars) (shepHome : Option Text) (app : AppConfig Rest) : Checked :=
  allOk [
    refuseIf (app.instances == 0) .zeroInstances,
    if 1 < app.instances ∧ app.mergeLogs = false then allOk [
      validateShared app.name "out_file" shepHome app.outFile,
      validateShared app.name "err_file" shepHome app.errFile] else .ok (),
    validateCron g app.cronRestart app.cronTimezone,
    validateProbe "readiness_probe" MIN_READINESS_INTERVAL app.readinessProbe,
    validateProbe "liveness_probe" MIN_LIVENESS_INTERVAL app.livenessProbe,
    validateMemory g app.name app.maxMemory app.memoryEnforce,
    validateCores g app.name app.maxCpuCores,
    validateTasks g app.name app.maxTasks,
    -- `!cfg!(unix)`
    refuseIf (app.pty && false) (.ptyUnsupported app.name),
    validateKillSignal app.name app.killSignal,
    refuseIf (MAX_ACTION_TIMEOUT < app.actionTimeout)
      (.actionTimeoutTooLong app.name app.actionTimeout MAX_ACTION_TIMEOUT),
    refuseIf (app.watch && app.cwd.isNone) (.watchWithoutCwd app.name),
    refuseIf (app.watchDelay == some 0) (.zeroWatchDelay app.name),
    validateWatchGlobs g app.name "watch_options" app.watchOptions,
    validateWatchGlobs g app.name "ignore_watch" app.ignoreWatch,
    validateLevelRules g app.name app.levelRules,
    refuseIf (app.dogs.keys.any (· == "")) (.emptyDogName app.name),
    validateListen g app.name app.listen (app.dogs.contains "sandbox") false,
    validateSandbox app.name (app.dogs.contains "sandbox") false]

/-- `normalize_with_home`, short of the proof token it hands out. -/
def normalizeWithHome (g : Grammars) (home shepHome : Option Text) (app : AppConfig Rest) :
    Except NormalizeError (AppConfig Rest) := do
  checkWritten shepHome app
  let app ← expandPaths app home
  checkExpanded g shepHome app
  let dependsOn ← dedupTargets app.name [] app.dependsOn
  return { app with dependsOn := dependsOn }

end Normalize

end Shep
