import Shep.Common.Table
import Shep.Common.Trace
import Shep.Values.Model

/-!
# Bark — the rules engine

The bark dog's `rules/mod.rs` and `rules/log_match.rs`: what makes a rule
fire, on the bus and on a reconciliation poll, and the record by which a
rule stays quiet for a subject after it fired. Stamps are milliseconds and,
like restart counts, numbers that are only ever compared and subtracted.
The regex crate is the parameter `compile`.

A route emits a `Look` for every rule it evaluates for a subject, whether
or not the rule held; the firings it returns are those of its looks.
-/

namespace Shep

namespace Bark

open Values

/-! ## What a rule is written with -/

/-- `LogStream`. -/
inductive LogStream where
  | out
  | err
  | both
  deriving Repr, DecidableEq

namespace LogStream

def readsOut : LogStream → Bool
  | out => true
  | err => false
  | both => true

def readsErr : LogStream → Bool
  | out => false
  | err => true
  | both => true

end LogStream

/-- `Trigger`: what makes a rule fire. -/
inductive Trigger where
  | event (kinds : List String)
  | gaveUp
  | restartRate (restarts : ℕ) (within : UpDuration)
  | memoryAbove (bytes : MemSize)
  | logMatch (pattern : String) (stream : LogStream)
  deriving Repr, DecidableEq

/-- `trigger_name`. -/
def triggerName : Trigger → String
  | .event _ => "event"
  | .gaveUp => "gave_up"
  | .restartRate _ _ => "restart_rate"
  | .memoryAbove _ => "memory_above"
  | .logMatch _ _ => "log_match"

/-- `Rule`: one entry under `[[bark.rules]]`. -/
structure Rule where
  trigger : Trigger
  sinks : List String
  debounce : UpDuration
  deriving Repr, DecidableEq

/-- `ProcessEventKind`. -/
inductive ProcessEventKind where
  | start
  | online
  | exit
  | restart
  | reload
  | reloaded
  | reloadAbandoned
  | stop
  | delete
  | errored
  | sandboxRefused
  | unrecognized
  deriving Repr, DecidableEq

/-- `wire_spelling`. -/
def wireSpelling : ProcessEventKind → String
  | .start => "start"
  | .online => "online"
  | .exit => "exit"
  | .restart => "restart"
  | .reload => "reload"
  | .reloaded => "reloaded"
  | .reloadAbandoned => "reload_abandoned"
  | .stop => "stop"
  | .delete => "delete"
  | .errored => "errored"
  | .sandboxRefused => "sandbox_refused"
  | .unrecognized => "unrecognized"

/-- The kinds a build has been taught. -/
def taughtKinds : List ProcessEventKind :=
  [.start, .online, .exit, .restart, .reload, .reloaded, .reloadAbandoned, .stop, .delete,
    .errored, .sandboxRefused]

/-- `is_known_kind`: an unknown spelling decodes as `unrecognized`. -/
def isKnownKind (kind : String) : Bool := taughtKinds.any fun known => wireSpelling known = kind

/-- `ProcStatus`, as a listing spells it. -/
inductive ProcStatus where
  | starting
  | online
  | stopping
  | stopped
  | errored
  | waitingRestart
  | unrecognized
  deriving Repr, DecidableEq

/-- `ProcessInfo`: what the rules read of a listing's row. -/
structure ProcessInfo where
  id : ℕ
  name : String
  status : ProcStatus
  restarts : ℕ
  memoryBytes : Option UInt64
  sandboxRefused : Option Bool
  deriving Repr, DecidableEq

/-- `BusEvent`. The events that are neither of a sheep's life nor of its
output are one here: no rule reads them. -/
inductive BusEvent where
  | process (event : ProcessEventKind) (info : ProcessInfo)
  | logOut (id : ℕ) (line : String)
  | logErr (id : ℕ) (line : String)
  | other
  deriving Repr, DecidableEq

/-! ## Sinks -/

/-- `Sink`. -/
inductive Sink where
  | discord (url : String)
  | slack (url : String)
  | json (url : String) (body : Option String)
  deriving Repr, DecidableEq

namespace Sink

def url : Sink → String
  | discord url => url
  | slack url => url
  | json url _ => url

/-- `https_only_kind`. -/
def httpsOnlyKind : Sink → Option String
  | discord _ => some "discord"
  | slack _ => some "slack"
  | json _ _ => none

end Sink

/-- `split_once("://")`, what is behind it. -/
def afterScheme : List Char → Option (List Char)
  | [] => none
  | c :: cs => if [':', '/', '/'].isPrefixOf (c :: cs) then some (cs.drop 2) else afterScheme cs

/-- `authority_of`. -/
def authorityOf (rest : List Char) : List Char :=
  rest.takeWhile fun c => c ≠ '/' ∧ c ≠ '?' ∧ c ≠ '#'

/-- `url_carries_credentials`. -/
def urlCarriesCredentials (url : String) : Bool :=
  let rest := (afterScheme url.toList).getD url.toList
  let rest := if ['/', '/'].isPrefixOf rest then rest.drop 2 else rest
  (authorityOf rest).contains '@'

/-- `SinkConfigError`. -/
inductive SinkConfigError where
  | insecureScheme (name kind : String)
  | urlCredentials (name : String)
  deriving Repr, DecidableEq

/-- `require_usable_url`. -/
def requireUsableUrl (name : String) (sink : Sink) : Except SinkConfigError Unit :=
  if urlCarriesCredentials sink.url then .error (.urlCredentials name)
  else match sink.httpsOnlyKind with
    | none => .ok ()
    | some kind =>
      if "https://".toList.isPrefixOf sink.url.toList then .ok ()
      else .error (.insecureScheme name kind)

/-! ## Log rules -/

/-- `Source`: which stream a log frame came from. -/
inductive Source where
  | out
  | err
  deriving Repr, DecidableEq

def Source.word : Source → String
  | out => "stdout"
  | err => "stderr"

/-- `RulesError`. -/
inductive RulesError where
  | unknownSink (index : ℕ) (sink : String)
  | noSinks (index : ℕ)
  | unknownKind (index : ℕ) (kind : String)
  | unusableSink (source : SinkConfigError)
  | badPattern (index : ℕ) (reason : String)
  deriving Repr, DecidableEq

/-- What the regex crate makes of a pattern: whether it is in a line, or
why it was refused. -/
abbrev Compile := String → Except String (String → Bool)

/-- `LogRule`: a `logMatch` rule, compiled. -/
structure LogRule where
  idx : ℕ
  stream : LogStream
  regex : String → Bool

namespace LogRule

/-- `LogRule::compile`. -/
def compile (regex : Compile) (index : ℕ) (pattern : String) (stream : LogStream) :
    Except RulesError LogRule :=
  if pattern.isEmpty then
    .error (.badPattern index "the pattern is empty and would match every line")
  else match regex pattern with
    | .error err => .error (.badPattern index err)
    | .ok regex => .ok ⟨index, stream, regex⟩

/-- `matches`. -/
def reads (rule : LogRule) (source : Source) (line : String) : Bool :=
  (match source with
    | .out => rule.stream.readsOut
    | .err => rule.stream.readsErr) && rule.regex line

end LogRule

/-- `LINE_CAP`. -/
def LINE_CAP : ℕ := 1000

/-- The longest beginning of a text that is at most so many bytes and ends
at a character. -/
def cut : ℕ → List Char → List Char
  | _, [] => []
  | cap, c :: cs => if c.utf8Size ≤ cap then c :: cut (cap - c.utf8Size) cs else []

/-- `log_match::message`. -/
def logMessage (name : String) (source : Source) (line : String) : String :=
  name ++ " logged to " ++ source.word ++ ": " ++ String.ofList (cut LINE_CAP line.toList)

/-! ## What a firing says -/

/-- `gave_up_message`. -/
def gaveUpMessage (name : String) : String := name ++ " gave up: restart budget exhausted"

/-- `sandbox_refused_message`. -/
def sandboxRefusedMessage (name : String) : String := name ++ " sandbox refused"

/-- What a `restartRate` rule says. -/
def restartRateMessage (info : ProcessInfo) (restarts : ℕ) (within : UpDuration) : String :=
  info.name ++ " restarted " ++ info.restarts.repr ++ " times, at or past the " ++
    restarts.repr ++ "-within-" ++ within.display ++ " early warning"

/-- What a `memoryAbove` rule says. -/
def memoryMessage (info : ProcessInfo) (used : UInt64) (bytes : MemSize) : String :=
  info.name ++ " memory at " ++ (MemSize.mk used).display ++ ", at or above the " ++
    bytes.display ++ " limit"

/-- The bark a rule leaves, and the sinks it goes to. -/
structure Firing where
  atMs : ℕ
  rule : String
  subject : String
  message : String
  sinks : List String
  deriving Repr, DecidableEq

/-! ## What each subject last looked like to each rule -/

/-- `SubjectState`. -/
structure SubjectState where
  /-- When each rule last fired for the subject. -/
  lastFired : Std.ExtTreeMap ℕ ℕ
  /-- The count a rule's window starts from, and when it opened. -/
  restartWindows : Std.ExtTreeMap ℕ (ℕ × ℕ)

/-- `SubjectState::default`. -/
def SubjectState.fresh : SubjectState := ⟨∅, ∅⟩

/-- `subjects`. -/
abbrev Subjects := Std.ExtTreeMap String SubjectState

/-- `subject_state`: the subject's entry, or the one made on first sight. -/
def subjectState (subjects : Subjects) (subject : String) : SubjectState :=
  subjects[subject]?.getD .fresh

/-- `Rules`. -/
structure Rules where
  rules : List Rule
  subjects : Subjects
  logRules : List LogRule
  /-- Sheep id to name, kept only while a log rule exists. -/
  names : Std.ExtTreeMap ℕ String

/-- A debounce that has elapsed, or has not begun. -/
def ready (debounce : UpDuration) (last : Option ℕ) (nowMs : ℕ) : Bool :=
  last.all fun last => debounce.millis.toNat ≤ nowMs - last

/-- `fire_rule`. -/
def fireRule (rules : List Rule) (subjects : Subjects) (idx : ℕ) (subject : String) (nowMs : ℕ)
    (message : String) : Subjects × Option Firing :=
  match rules[idx]? with
  | none => (subjects, none)
  | some rule =>
    let state := subjectState subjects subject
    if ready rule.debounce state.lastFired[idx]? nowMs then
      (subjects.insert subject { state with lastFired := state.lastFired.insert idx nowMs },
        some ⟨nowMs, triggerName rule.trigger, subject, message, rule.sinks⟩)
    else (subjects.insert subject state, none)

/-- One evaluation of a rule for a subject: what the trigger said, if it
held, and what was fired of it. -/
structure Look where
  idx : ℕ
  subject : String
  nowMs : ℕ
  message : Option String
  firing : Option Firing
  deriving Repr, DecidableEq

namespace Rules

/-! ## Building the engine -/

/-- What `Rules::new` asks of one rule, which adds its log rule if it is
one. -/
def admits (regex : Compile) (sinks : Std.ExtTreeMap String Sink) (index : ℕ) (rule : Rule) :
    Except RulesError (List LogRule) :=
  if rule.sinks.isEmpty then .error (.noSinks index)
  else match rule.sinks.find? fun sink => ¬ sinks.contains sink with
    | some sink => .error (.unknownSink index sink)
    | none =>
      match rule.trigger with
      | .event kinds =>
        match kinds.find? fun kind => ¬ isKnownKind kind with
        | some kind => .error (.unknownKind index kind)
        | none => .ok []
      | .logMatch pattern stream => (LogRule.compile regex index pattern stream).map fun r => [r]
      | _ => .ok []

/-- The rules from one place in the list on. -/
def admitsFrom (regex : Compile) (sinks : Std.ExtTreeMap String Sink) :
    ℕ → List Rule → Except RulesError (List LogRule)
  | _, [] => .ok []
  | index, rule :: rest => do
    let one ← admits regex sinks index rule
    let more ← admitsFrom regex sinks (index + 1) rest
    pure (one ++ more)

/-- The first sink that cannot work. -/
def usable : List (String × Sink) → Except RulesError Unit
  | [] => .ok ()
  | (name, sink) :: rest =>
    match requireUsableUrl name sink with
    | .error err => .error (.unusableSink err)
    | .ok () => usable rest

/-- `Rules::new`. -/
def new (regex : Compile) (rules : List Rule) (sinks : Std.ExtTreeMap String Sink) :
    Except RulesError Rules := do
  usable sinks.toList
  let logRules ← admitsFrom regex sinks 0 rules
  pure ⟨rules, ∅, logRules, ∅⟩

/-! ## One rule -/

/-- `fire`, if the trigger held: `message` is what it said. -/
def look (r : Rules) (idx : ℕ) (subject : String) (nowMs : ℕ) (message : Option String) :
    Rules × List Look :=
  match message with
  | none => (r, [⟨idx, subject, nowMs, none, none⟩])
  | some text =>
    let (subjects, firing) := fireRule r.rules r.subjects idx subject nowMs text
    ({ r with subjects := subjects }, [⟨idx, subject, nowMs, some text, firing⟩])

/-- The window as it stands once it has been slid if it had elapsed. -/
def slide (window : ℕ × ℕ) (current : ℕ) (within : UpDuration) (nowMs : ℕ) : ℕ × ℕ :=
  if within.millis.toNat < nowMs - window.2 then (current, nowMs) else window

/-- `restart_window_crossed`. -/
def restartWindowCrossed (r : Rules) (idx : ℕ) (subject : String) (current threshold : ℕ)
    (within : UpDuration) (nowMs : ℕ) : Rules × Bool :=
  let state := subjectState r.subjects subject
  let window := slide (state.restartWindows[idx]?.getD (0, nowMs)) current within nowMs
  let state := { state with restartWindows := state.restartWindows.insert idx window }
  ({ r with subjects := r.subjects.insert subject state }, threshold ≤ current - window.1)

/-! ## The bus -/

/-- `note_name`. -/
def noteName (r : Rules) (kind : ProcessEventKind) (info : ProcessInfo) : Rules :=
  if r.logRules.isEmpty then r
  else if kind = .delete then { r with names := r.names.erase info.id }
  else if r.names[info.id]? ≠ some info.name then
    { r with names := r.names.insert info.id info.name }
  else r

/-- What a rule's trigger says of a lifecycle event. -/
def eventMessage (trigger : Trigger) (kind : ProcessEventKind) (info : ProcessInfo) :
    Option String :=
  match trigger with
  | .event kinds =>
    if wireSpelling kind ∈ kinds then some (info.name ++ " " ++ wireSpelling kind) else none
  | .gaveUp =>
    match kind with
    | .errored => some (gaveUpMessage info.name)
    | .sandboxRefused => some (sandboxRefusedMessage info.name)
    | _ => none
  | _ => none

/-- One rule of a lifecycle event. -/
def eventRule (kind : ProcessEventKind) (info : ProcessInfo) (nowMs : ℕ) (r : Rules) (idx : ℕ) :
    Rules × List Look :=
  r.look idx info.name nowMs
    ((r.rules[idx]?).bind fun rule => eventMessage rule.trigger kind info)

/-- One log rule of a log frame. A line whose id has no name is skipped. -/
def logRule (id : ℕ) (line : String) (source : Source) (nowMs : ℕ) (r : Rules)
    (rule : LogRule) : Rules × List Look :=
  if rule.reads source line then
    match r.names[id]? with
    | none => (r, [])
    | some name => r.look rule.idx name nowMs (some (logMessage name source line))
  else (r, [])

/-- `on_log_event`. -/
def onLogEvent (r : Rules) (event : BusEvent) (nowMs : ℕ) : Rules × List Look :=
  match event with
  | .logOut id line => feed (logRule id line .out nowMs) r r.logRules
  | .logErr id line => feed (logRule id line .err nowMs) r r.logRules
  | _ => (r, [])

/-- `on_event`. -/
def onEvent (r : Rules) (event : BusEvent) (nowMs : ℕ) : Rules × List Look :=
  match event with
  | .process kind info =>
    feed (eventRule kind info nowMs) (r.noteName kind info) (List.range r.rules.length)
  | event => r.onLogEvent event nowMs

/-! ## The poll -/

/-- `learn`. -/
def learn (r : Rules) (flock : List ProcessInfo) : Rules :=
  if r.logRules.isEmpty then r
  else { r with names := flock.foldl (fun names info => names.insert info.id info.name) ∅ }

/-- What a rule's trigger says of a row. -/
def rowMessage (r : Rules) (idx : ℕ) (trigger : Trigger) (info : ProcessInfo) (nowMs : ℕ) :
    Rules × Option String :=
  match trigger with
  | .event _ => (r, none)
  | .logMatch _ _ => (r, none)
  | .gaveUp =>
    (r, if info.status = .errored then
      some (if info.sandboxRefused = some true then sandboxRefusedMessage info.name
        else gaveUpMessage info.name)
    else none)
  | .restartRate restarts within =>
    let (r, crossed) := r.restartWindowCrossed idx info.name info.restarts restarts within nowMs
    (r, if crossed then some (restartRateMessage info restarts within) else none)
  | .memoryAbove bytes =>
    (r, info.memoryBytes.bind fun used =>
      if bytes.bytes ≤ used then some (memoryMessage info used bytes) else none)

/-- One rule of one row. -/
def rowRule (info : ProcessInfo) (nowMs : ℕ) (r : Rules) (idx : ℕ) : Rules × List Look :=
  match r.rules[idx]? with
  | none => (r, [])
  | some rule =>
    let (r, message) := r.rowMessage idx rule.trigger info nowMs
    r.look idx info.name nowMs message

/-- All rules of one row. -/
def pollRow (nowMs : ℕ) (r : Rules) (info : ProcessInfo) : Rules × List Look :=
  feed (rowRule info nowMs) r (List.range r.rules.length)

/-- `on_poll`. -/
def onPoll (r : Rules) (flock : List ProcessInfo) (nowMs : ℕ) : Rules × List Look :=
  feed (pollRow nowMs) (r.learn flock) flock

end Rules

/-- What the dog asks of its rules. -/
inductive Call where
  | event (event : BusEvent)
  | poll (flock : List ProcessInfo)
  | learn (flock : List ProcessInfo)
  deriving Repr, DecidableEq

/-- One call at one stamp. -/
def Rules.serve (r : Rules) (call : Call) (nowMs : ℕ) : Rules × List Look :=
  match call with
  | .event event => r.onEvent event nowMs
  | .poll flock => r.onPoll flock nowMs
  | .learn flock => (r.learn flock, [])

/-- One stamped call after another. -/
def Rules.serveAll (r : Rules) (calls : List (Call × ℕ)) : Rules × List Look :=
  feed (fun r call => r.serve call.1 call.2) r calls

end Bark

end Shep
