import Shep.Channel.Model
import Shep.Common.Broadcast
import Shep.Common.Guarded
import Shep.Frame.Model
import Shep.Gate.Model

/-!
# Bus — the shepherd's events, and who hears them

`bus.rs`: the one channel of events, the count of those who read log lines
and the task that forwards to a subscriber, with `BusEvent::topic` and what
`permissions/mod.rs` and `rpc/gate.rs` let a link subscribe to. `Traffic` is
the bus with its forwarders and with the publishers that have read the
count, and any of them may move next. Reading the count and sending are two
moves of a publisher, and registering and taking a receiver two moves of a
`Subscribe`.

The globset crate and the encoding of a frame are parameters. A frame's
cache is left out, as is the order in which threads see the count.
-/

namespace Shep

/-! ## Topics -/

/-- A topic, or a pattern over topics. -/
abbrev Topic := List Char

namespace Frame

open Channel (ChildMessage)

variable {Info Json : Type}

/-- `BusEvent::topic`. -/
def BusEvent.topic : BusEvent Info ChildMessage Json → Topic
  | .process event _ _ _ =>
    match event with
    | .start => "process.start".toList
    | .online => "process.online".toList
    | .exit => "process.exit".toList
    | .restart => "process.restart".toList
    | .reload => "process.reload".toList
    | .reloaded => "process.reloaded".toList
    | .reloadAbandoned => "process.reload_abandoned".toList
    | .stop => "process.stop".toList
    | .delete => "process.delete".toList
    | .errored => "process.errored".toList
    | .sandboxRefused => "process.sandbox_refused".toList
    | .unrecognized => "process.unrecognized".toList
  | .logOut _ _ => "log.out".toList
  | .logErr _ _ => "log.err".toList
  | .channel _ message =>
    match message with
    | .ready => "channel.ready".toList
    | .metric _ _ => "channel.metric".toList
    | .actionReply _ _ _ => "channel.action_reply".toList
    | .lambLabel _ => "channel.lamb_label".toList
    | .note _ _ => "channel.note".toList
  | .dropped _ => "daemon.dropped".toList
  | .daemonShutdown => "daemon.shutdown".toList
  | .dogConfigChanged name => "config.dog.".toList ++ name.toList
  | .dog name kind _ => "dog.".toList ++ name.toList ++ ".".toList ++ kind.toList
  | .dogSheepSettingsChanged name _ => "config.sheep.".toList ++ name.toList
  | .ptyOut _ _ => "pty.out".toList
  | .ptyEnd _ => "pty.end".toList

/-- The events `publish_log` is called with. -/
def BusEvent.isLog : BusEvent Info ChildMessage Json → Bool
  | .logOut _ _ | .logErr _ _ => true
  | .process _ _ _ _ | .channel _ _ | .dropped _ | .daemonShutdown | .dogConfigChanged _
  | .dog _ _ _ | .dogSheepSettingsChanged _ _ | .ptyOut _ _ | .ptyEnd _ => false

theorem BusEvent.topic_of_isLog {event : BusEvent Info ChildMessage Json}
    (h : event.isLog = true) : event.topic ∈ ["log.out".toList, "log.err".toList] := by
  cases event with
  | logOut => exact List.mem_cons_self ..
  | logErr => exact List.mem_cons_of_mem _ (List.mem_cons_self ..)
  | _ => exact absurd h Bool.false_ne_true

end Frame

namespace Bus

open Broadcast (Received)
open Channel (ChildMessage)
open Gate (Grants KnownDogs)

variable {Info Json : Type}

/-- `SharedEvent`, without the frame it keeps. -/
abbrev SharedEvent (Info Json : Type) := Frame.BusEvent Info ChildMessage Json

/-! ## Grants over topics -/

/-- The characters a glob is more than its text by. -/
def globChars : List Char := ['*', '?', '[', '\x7b', '\\']

/-- `literal_head`. -/
def literalHead (pattern : Topic) : Topic := pattern.takeWhile fun c => !globChars.contains c

/-- The `names_a_dog_alone` of `covers`. -/
def namesADogAlone (granted : Topic) : Bool :=
  match granted.dropPrefix? "dog.".toList with
  | some name => !name.isEmpty && !name.contains '.'
  | none => false

/-- `covers`. -/
def covers (granted head : Topic) : Bool :=
  if namesADogAlone granted then
    match head.dropPrefix? granted with
    | some rest => rest.head? == some '.'
    | none => false
  else granted.isPrefixOf head

/-- What one granted name says of the topics that begin so. -/
def grantCovers (name : String) (head : Topic) : Bool :=
  match name.toList.dropPrefix? "events:".toList with
  | some granted => covers granted head
  | none => false

/-- `allows_topic`. -/
def allowsTopic (grants : Grants) (pattern : Topic) : Bool :=
  decide (∃ name ∈ grants, grantCovers name (literalHead pattern) = true)

/-- `is_own_config_topic`. -/
def isOwnConfigTopic (topic : Topic) (dog : String) : Bool :=
  ((topic.dropPrefix? "config.dog.".toList).or (topic.dropPrefix? "config.sheep.".toList)) ==
    some dog.toList

/-- `Link`, and none for the control socket. -/
inductive Link where
  | control
  | dog (dog : String)
  | launch (dog sheep : String)
  deriving Repr, DecidableEq

/-- What `check_launch` asks of the topics. What `check` asks of a dog's is
asked again by `stillAllowed`. -/
def Link.admits (link : Link) (topics : List Topic) : Bool :=
  match link with
  | .control | .dog _ => true
  | .launch name _ => topics.all fun topic => topic == "config.sheep.".toList ++ name.toList

/-- The `still_allowed` of `spawn_checked_forwarder`. -/
def stillAllowed (known : KnownDogs) (link : Link) (topics : List Topic) : Bool :=
  match link with
  | .control | .launch _ _ => true
  | .dog dog =>
    match known.grants dog with
    | none => true
    | some grants =>
      topics.all fun topic => allowsTopic grants topic || isOwnConfigTopic topic dog

/-! ## Filters -/

/-- `MAX_TOPIC_PATTERNS`. -/
def maxTopicPatterns : ℕ := 32

/-- The globset crate: what compiles, and what a compiled set matches. -/
structure Globset where
  Glob : Type
  GlobSet : Type
  glob : Topic → Except String Glob
  build : List Glob → Except String GlobSet
  isMatch : GlobSet → Topic → Bool

/-- `BusError`. -/
inductive BusError where
  | badPattern (pattern : Topic) (message : String)
  | tooManyPatterns (count : ℕ)
  deriving Repr, DecidableEq

variable {G : Globset}

/-- `TopicFilter`. -/
structure TopicFilter (G : Globset) where
  set : G.GlobSet
  patterns : List Topic
  onlySheep : Option String := none

/-- `TopicFilter::new`. -/
def TopicFilter.new (G : Globset) (patterns : List Topic) : Except BusError (TopicFilter G) :=
  if maxTopicPatterns < patterns.length then .error (.tooManyPatterns patterns.length)
  else do
    let globs ← patterns.mapM fun pattern => (G.glob pattern).mapError (.badPattern pattern)
    let set ← (G.build globs).mapError (.badPattern (", ".toList.intercalate patterns))
    pure { set, patterns }

/-- `matches`. -/
def TopicFilter.matchesEvent (filter : TopicFilter G) (event : SharedEvent Info Json) : Bool :=
  G.isMatch filter.set event.topic &&
    match filter.onlySheep, event with
    | none, _ => true
    | some only, .dogSheepSettingsChanged _ sheep => sheep == only
    | some _, _ => false

/-- `wants_logs`. -/
def TopicFilter.wantsLogs (filter : TopicFilter G) : Bool :=
  ["log.out".toList, "log.err".toList].any fun topic => G.isMatch filter.set topic

/-- The filter a link's forwarder is spawned with. -/
def Link.narrow (link : Link) (filter : TopicFilter G) : TopicFilter G :=
  match link with
  | .control | .dog _ => filter
  | .launch _ sheep => { filter with onlySheep := some sheep }

/-- A filter that lets a log line through is one that wants logs. -/
theorem TopicFilter.wantsLogs_of_matches {filter : TopicFilter G} {event : SharedEvent Info Json}
    (hlog : event.isLog = true) (h : filter.matchesEvent event = true) :
    filter.wantsLogs = true :=
  List.any_eq_true.2 ⟨event.topic, event.topic_of_isLog hlog, (Bool.and_eq_true_iff.1 h).1⟩

/-! ## Forwarders -/

variable {Bytes : Type}

/-- Where a forwarder stands. -/
inductive Stage (Bytes : Type) where
  /-- Its interest is counted, its receiver not yet taken. -/
  | registered
  | receiving
  | sending (frame : Bytes)
  | ended
  deriving Repr, DecidableEq

namespace Stage

def isEnded : Stage Bytes → Bool
  | .ended => true
  | .registered | .receiving | .sending _ => false

def isRegistered : Stage Bytes → Bool
  | .registered => true
  | .receiving | .sending _ | .ended => false

end Stage

/-- What a forwarder received, and the record of grants at that moment. -/
structure Receipt (Info Json : Type) where
  received : Received (SharedEvent Info Json)
  known : KnownDogs

/-- A forwarder: `LogInterest` and the task. `pushed` is what its connection
was handed. -/
structure Forwarder (G : Globset) (Info Json Bytes : Type) where
  link : Link
  filter : TopicFilter G
  stage : Stage Bytes := .registered
  next : ℕ := 0
  pushed : List Bytes := []
  /-- Model only: where it began to read, how many log lines had been
  offered then, and what it received. -/
  since : ℕ := 0
  askedAt : ℕ := 0
  got : List (Receipt Info Json) := []

/-- The frame a receive makes, if it makes one. -/
def frameOf (wire : SharedEvent Info Json → Option Bytes) (filter : TopicFilter G) :
    Received (SharedEvent Info Json) → Option Bytes
  | .item event => if filter.matchesEvent event then wire event else none
  | .lagged count => wire (.dropped (UInt64.ofNat count))

namespace Forwarder

variable (wire : SharedEvent Info Json → Option Bytes) (f : Forwarder G Info Json Bytes)

/-- What it adds to the count while it lives. -/
def interest : ℕ := if f.filter.wantsLogs then 1 else 0

/-- It lives, and its interest is counted. -/
def interested : Bool := !f.stage.isEnded && f.filter.wantsLogs

/-- A receive, to the await on the connection: `step`, and `still_allowed`
where there is a frame. -/
def receive (known : KnownDogs) (x : Received (SharedEvent Info Json)) (next : ℕ) :
    Forwarder G Info Json Bytes :=
  { f with
    next
    got := f.got ++ [⟨x, known⟩]
    stage :=
      match frameOf wire f.filter x with
      | none => .receiving
      | some frame =>
        if stillAllowed known f.link f.filter.patterns then .sending frame else .ended }

end Forwarder

/-! ## The bus -/

/-- `BUS_CAPACITY`. -/
def busCapacity : ℕ := 1024

/-- `Bus`, its forwarders, and the log lines whose publisher has found
someone to read them. -/
structure Traffic (G : Globset) (Info Json Bytes : Type) where
  ring : Broadcast.Ring (SharedEvent Info Json) := { capacity := busCapacity }
  logSubscribers : ℕ := 0
  known : KnownDogs := ∅
  forwarders : List (Forwarder G Info Json Bytes) := []
  publishing : List (SharedEvent Info Json) := []
  closed : Bool := false
  /-- Model only: everything sent, and every log line offered. -/
  history : List (SharedEvent Info Json) := []
  asked : List (SharedEvent Info Json) := []

/-- What can happen. -/
inductive Event (Info Json : Type) where
  /-- Anything but a log line is sent. -/
  | send (event : SharedEvent Info Json)
  /-- `publish_log` reads the count. -/
  | publishLog (event : SharedEvent Info Json)
  /-- A publisher that found a reader sends. -/
  | sendLog (k : ℕ)
  /-- The record of grants becomes another. -/
  | record (known : KnownDogs)
  /-- `subscribe_for`, to the count and from it. -/
  | register (link : Link) (patterns : List Topic)
  | subscribe (i : ℕ)
  | recv (i : ℕ)
  /-- The connection takes a frame, or is gone. -/
  | push (i : ℕ) (accepted : Bool)
  | abort (i : ℕ)
  /-- The last handle on the bus is dropped. -/
  | close

namespace Traffic

variable (s : Traffic G Info Json Bytes)

/-- `Sender::send`. The shepherd holds two receivers of its own for its
life, so it never finds the channel without one. -/
def send (event : SharedEvent Info Json) : Traffic G Info Json Bytes :=
  { s with ring := s.ring.send event, history := s.history ++ [event] }

/-- A forwarder goes on as another, and gives up its interest at its end. -/
def put (i : ℕ) (f : Forwarder G Info Json Bytes) : Traffic G Info Json Bytes :=
  { s with
    forwarders := s.forwarders.set i f
    logSubscribers :=
      if f.stage.isEnded then s.logSubscribers - f.interest else s.logSubscribers }

def step (wire : SharedEvent Info Json → Option Bytes) (s : Traffic G Info Json Bytes) :
    Event Info Json → Option (Traffic G Info Json Bytes)
  | .send event => if s.closed || event.isLog then none else some (s.send event)
  | .publishLog event =>
    if s.closed || !event.isLog then none
    else
      let asked := s.asked ++ [event]
      if s.logSubscribers = 0 then some { s with asked }
      else some { s with asked, publishing := s.publishing ++ [event] }
  | .sendLog k =>
    s.publishing[k]?.map fun event => { s.send event with publishing := s.publishing.eraseIdx k }
  | .record known => some { s with known }
  | .register link patterns =>
    if s.closed || !link.admits patterns then none
    else
      match TopicFilter.new G patterns with
      | .error _ => none
      | .ok filter =>
        let f : Forwarder G Info Json Bytes := { link, filter := link.narrow filter }
        some { s with
          forwarders := s.forwarders ++ [f]
          logSubscribers := s.logSubscribers + f.interest }
  | .subscribe i =>
    s.forwarders[i]?.bind fun f =>
      match f.stage with
      | .registered =>
        some (s.put i { f with
          stage := .receiving
          next := s.ring.sent
          since := s.history.length
          askedAt := s.asked.length })
      | .receiving | .sending _ | .ended => none
  | .recv i =>
    s.forwarders[i]?.bind fun f =>
      match f.stage with
      | .receiving =>
        match s.ring.recv f.next with
        | some (x, next) => some (s.put i (f.receive wire s.known x next))
        | none => if s.closed then some (s.put i { f with stage := .ended }) else none
      | .registered | .sending _ | .ended => none
  | .push i accepted =>
    s.forwarders[i]?.bind fun f =>
      match f.stage with
      | .sending frame =>
        some (s.put i
          (if accepted then { f with stage := .receiving, pushed := f.pushed ++ [frame] }
          else { f with stage := .ended }))
      | .registered | .receiving | .ended => none
  | .abort i =>
    s.forwarders[i]?.bind fun f =>
      match f.stage with
      | .receiving | .sending _ => some (s.put i { f with stage := .ended })
      | .registered | .ended => none
  | .close =>
    if s.publishing.isEmpty && s.forwarders.all (fun f => !f.stage.isRegistered) then
      some { s with closed := true }
    else none

end Traffic

end Bus

end Shep
