import Mathlib.Algebra.Order.Ring.Nat
import Mathlib.Data.List.Basic
import Shep.Common.Run

/-!
# Channel — an app's end of its channel

`outbox.rs`, the two loops of `loops.rs` over it, and `dispatch.rs`'s
resolving and running of a message. Each call holds the lock once, but for a
wait on a condvar, which is a call that cannot be taken yet. `Served` is an
outbox with its writer, its reader and the handler threads the reader has
spawned, and any of them may move next: so may the app, which pushes,
registers handlers and closes. What the app's own code answers, whether a
write or a spawn succeeds, and what is read are the event's.

The fields of a metric beside its name and value, the label of a lamb and
the text of a malformed frame are left out, and a thread's panic, which
`run` catches.
-/

namespace Shep

namespace Channel

/-! ## Messages -/

/-- `ChildMessage`. A number is its bits. -/
inductive ChildMessage where
  | ready
  | metric (name : String) (value : UInt64)
  | actionReply (action body : String) (id : Option UInt64)
  | lambLabel (pid : UInt32)
  | note (name : String) (value : UInt64)
  deriving Repr, DecidableEq

/-- `ShepherdMessage`. -/
inductive ShepherdMessage where
  | shutdown
  | action (name : String) (params caller : Option String) (id : UInt64)
  | lambSignalled
  deriving Repr, DecidableEq

/-- The messages a full queue may give up. -/
def ChildMessage.lossy : ChildMessage → Bool
  | .metric _ _ | .note _ _ => true
  | .ready | .actionReply _ _ _ | .lambLabel _ => false

/-! ## The outbox -/

/-- `MAX_BATCH`. -/
def maxBatch : ℕ := 64

/-- `u64::MAX`, and `usize::MAX`. -/
def wordMax : ℕ := 2 ^ 64 - 1

/-- `saturating_add`. -/
def saturatingAdd (a b : ℕ) : ℕ := min (a + b) wordMax

/-- `Outbox`. -/
structure Outbox where
  capacity : ℕ
  queue : List ChildMessage := []
  dropped : ℕ := 0
  closed : Bool := false
  inFlight : ℕ := 0
  stopped : Bool := false
  deriving Repr, DecidableEq

/-- What became of a message that may be dropped. -/
inductive Pushed where
  | kept
  | refused
  | keptFor (evicted : ChildMessage)
  deriving Repr, DecidableEq

/-- `Drain`. -/
inductive Drain where
  | empty
  | stopped
  | timedOut
  deriving Repr, DecidableEq

namespace Outbox

/-- `new`. -/
def new (capacity : ℕ) : Outbox := { capacity }

/-- `push_lossy`, with what became of the message. -/
def pushLossy (message : ChildMessage) (outbox : Outbox) : Outbox × Pushed :=
  if outbox.closed then
    ({ outbox with dropped := saturatingAdd outbox.dropped 1 }, .refused)
  else if outbox.capacity = 0 then
    ({ outbox with dropped := saturatingAdd outbox.dropped 1 }, .refused)
  else if outbox.capacity ≤ outbox.queue.length then
    match outbox.queue.find? ChildMessage.lossy with
    | none => ({ outbox with dropped := saturatingAdd outbox.dropped 1 }, .refused)
    | some oldest =>
      ({ outbox with
          queue := outbox.queue.eraseP ChildMessage.lossy ++ [message]
          dropped := saturatingAdd outbox.dropped 1 }, .keptFor oldest)
  else ({ outbox with queue := outbox.queue ++ [message] }, .kept)

/-- `push_blocking`: none while it waits for room, and else whether it was
`Ok`. -/
def pushBlocking (message : ChildMessage) (outbox : Outbox) : Option (Outbox × Bool) :=
  if outbox.capacity = 0 then some (outbox, false)
  else if outbox.closed then some (outbox, false)
  else if outbox.capacity ≤ outbox.queue.length then none
  else some ({ outbox with queue := outbox.queue ++ [message] }, true)

/-- `take_batch`: none while it waits for a message, and else the batch, if
there will be one. -/
def takeBatch (outbox : Outbox) : Option (Outbox × Option (List ChildMessage)) :=
  if outbox.queue = [] then
    if outbox.closed then some (outbox, none) else none
  else
    let batch := outbox.queue.take maxBatch
    some ({ outbox with
      queue := outbox.queue.drop maxBatch
      inFlight := saturatingAdd outbox.inFlight batch.length }, some batch)

/-- `wrote`. -/
def wrote (count : ℕ) (outbox : Outbox) : Outbox :=
  { outbox with inFlight := outbox.inFlight - count }

/-- `close`. -/
def close (outbox : Outbox) : Outbox := { outbox with closed := true }

/-- `stop`. -/
def stop (outbox : Outbox) : Outbox := { outbox with stopped := true, closed := true }

/-- `drain`: none while it waits, which it does until its time is up. -/
def drain (elapsed : Bool) (outbox : Outbox) : Option Drain :=
  if outbox.queue = [] ∧ outbox.inFlight = 0 then some .empty
  else if outbox.stopped then some .stopped
  else if elapsed then some .timedOut
  else none

/-- `pending`. -/
def pending (outbox : Outbox) : ℕ := outbox.queue.length + outbox.inFlight

end Outbox

/-! ## What the shepherd sends -/

/-- `Dispatch`: the actions that have a handler, and whether shutdown has. -/
structure Dispatch where
  actions : List String := []
  shutdown : Bool := false
  deriving Repr, DecidableEq

/-- `Resolved`. -/
inductive Resolved where
  | action (name : String) (params caller : Option String) (id : UInt64)
  | unknownAction (name : String) (id : UInt64)
  | shutdown
  | unhandledShutdown
  | ignored
  deriving Repr, DecidableEq

/-- `resolve`. -/
def Dispatch.resolve (message : ShepherdMessage) (dispatch : Dispatch) : Resolved :=
  match message with
  | .shutdown => if dispatch.shutdown then .shutdown else .unhandledShutdown
  | .action name params caller id =>
    if dispatch.actions.contains name then .action name params caller id
    else .unknownAction name id
  | .lambSignalled => .ignored

/-- What came of calling a handler: what it returned, or the text it
panicked with. -/
abbrev Called := Except String String

/-- `Outcome`. -/
inductive Outcome where
  | reply (message : ChildMessage)
  | handled
  | unhandledShutdown
  | ignored
  | shutdownFailed (text : String)
  deriving Repr, DecidableEq

/-- `run`. -/
def run (resolved : Resolved) (called : Called) : Outcome :=
  match resolved with
  | .action name _ _ id =>
    let body :=
      match called with
      | .ok body => body
      | .error text => "action handler failed: " ++ text
    .reply (.actionReply name body (some id))
  | .unknownAction name id => .reply (.actionReply name ("unknown action: " ++ name) (some id))
  | .shutdown =>
    match called with
    | .ok _ => .handled
    | .error text => .shutdownFailed text
  | .unhandledShutdown => .unhandledShutdown
  | .ignored => .ignored

/-! ## The threads -/

/-- `MAX_CONCURRENT_HANDLERS`. -/
def maxConcurrentHandlers : ℕ := 32

/-- Where `writer_loop` stands. -/
inductive Writer where
  | taking
  | writing (batch : List ChildMessage)
  /-- The batch is written, and is about to be reported. -/
  | reporting (count : ℕ)
  /-- Out of the loop. -/
  | stopping
  | done
  deriving Repr, DecidableEq

/-- Where a handler thread stands. -/
inductive Handler where
  | running (resolved : Resolved)
  | replying (reply : ChildMessage)
  | finished
  deriving Repr, DecidableEq

/-- Where `reader_loop` stands, with the threads it holds the handles of. -/
inductive Reader where
  | reading (handlers : List ℕ)
  /-- In `join_handlers`, a shutdown read. -/
  | joining (handlers : List ℕ)
  | resolving (handlers : List ℕ) (message : ShepherdMessage)
  /-- Running the message itself. -/
  | answering (handlers : List ℕ) (resolved : Resolved)
  | replying (handlers : List ℕ) (reply : ChildMessage)
  /-- Out of the loop, in `join_handlers`. -/
  | ending (handlers : List ℕ)
  | closing
  | done
  deriving Repr, DecidableEq

/-- What has become of the messages: those accepted, refused and evicted,
those the writer has taken and those a write of it has taken on, and whether
a write has failed. -/
structure Log where
  accepted : List ChildMessage := []
  refused : List ChildMessage := []
  evicted : List ChildMessage := []
  handed : List ChildMessage := []
  written : List ChildMessage := []
  failed : Bool := false
  deriving Repr, DecidableEq

/-- The outbox and its writer. -/
structure Sending where
  outbox : Outbox
  writer : Writer := .taking
  log : Log := {}
  deriving Repr, DecidableEq

/-- A channel that is being served: the actions it has read, the replies
pushed for them with whether each was accepted, and what was warned of. -/
structure Served where
  sending : Sending
  reader : Reader := .reading []
  handlers : List Handler := []
  dispatch : Dispatch := {}
  warnedMalformed : Bool := false
  actions : List (String × UInt64) := []
  replied : List (ChildMessage × Bool) := []
  warned : List String := []
  deriving Repr, DecidableEq

/-- What `read_message` comes to. -/
inductive Frame where
  | message (message : ShepherdMessage)
  | malformed
  /-- The end of the stream, or a transport that fails. -/
  | ended
  deriving Repr, DecidableEq

/-- What moves. -/
inductive Event where
  /-- The app: `metric`, `note`; `ready`, `label_lamb`; its registering of
  handlers; and whoever closes. -/
  | lossy (message : ChildMessage)
  | blocking (message : ChildMessage)
  | onAction (name : String)
  | onShutdown
  | close
  /-- The writer. -/
  | take
  | write (ok : Bool)
  | wrote
  | stop
  /-- The reader. -/
  | read (frame : Frame)
  | join
  | resolve (spawned : Bool)
  | answer (called : Called)
  | reply
  | readerClose
  /-- One of the handler threads. -/
  | handle (thread : ℕ) (called : Called)
  | handlerReply (thread : ℕ)
  deriving Repr, DecidableEq

namespace Sending

/-- A push that may be dropped. -/
def pushLossy (message : ChildMessage) (s : Sending) : Sending :=
  let pushed := s.outbox.pushLossy message
  let log :=
    match pushed.2 with
    | .kept => { s.log with accepted := s.log.accepted ++ [message] }
    | .refused => { s.log with refused := s.log.refused ++ [message] }
    | .keptFor evicted =>
      { s.log with
        accepted := s.log.accepted ++ [message], evicted := s.log.evicted ++ [evicted] }
  { s with outbox := pushed.1, log }

/-- A push that must not be lost, and whether it was accepted. -/
def pushBlocking (message : ChildMessage) (s : Sending) : Option (Sending × Bool) :=
  (s.outbox.pushBlocking message).map fun pushed =>
    let log :=
      if pushed.2 then { s.log with accepted := s.log.accepted ++ [message] } else s.log
    ({ s with outbox := pushed.1, log }, pushed.2)

def close (s : Sending) : Sending := { s with outbox := s.outbox.close }

/-- One turn of `writer_loop`'s condition. -/
def takes (s : Sending) : Option Sending :=
  match s.writer with
  | .taking =>
    s.outbox.takeBatch.map fun taken =>
      match taken.2 with
      | none => { s with outbox := taken.1, writer := .stopping }
      | some batch =>
        { s with
          outbox := taken.1, writer := .writing batch, log.handed := s.log.handed ++ batch }
  | _ => none

/-- `write_messages`. -/
def writes (ok : Bool) (s : Sending) : Option Sending :=
  match s.writer with
  | .writing batch =>
    if ok then
      some { s with
        writer := .reporting batch.length, log.written := s.log.written ++ batch }
    else some { s with writer := .stopping, log.failed := true }
  | _ => none

def reports (s : Sending) : Option Sending :=
  match s.writer with
  | .reporting count => some { s with outbox := s.outbox.wrote count, writer := .taking }
  | _ => none

def stops (s : Sending) : Option Sending :=
  match s.writer with
  | .stopping => some { s with outbox := s.outbox.stop, writer := .done }
  | _ => none

end Sending

namespace Served

/-- `serve`, with the outbox it makes. -/
def serve (capacity : ℕ) : Served := { sending := { outbox := .new capacity } }

/-- A reply pushed by the reader or one of its threads. -/
def pushReply (reply : ChildMessage) (s : Served) : Option (Served × Bool) :=
  (s.sending.pushBlocking reply).map fun pushed =>
    ({ s with sending := pushed.1, replied := s.replied ++ [(reply, pushed.2)] }, pushed.2)

/-- `is_finished`. -/
def isFinished (thread : ℕ) (s : Served) : Bool := s.handlers[thread]? == some .finished

def warn (text : String) (s : Served) : Served := { s with warned := s.warned ++ [text] }

/-- `read_message`, and the handles of the threads still running. -/
def reads (frame : Frame) (s : Served) : Option Served :=
  match s.reader with
  | .reading handlers =>
    match frame with
    | .message message =>
      let handlers := handlers.filter fun thread => !s.isFinished thread
      match message with
      | .shutdown => some { s with reader := .joining handlers }
      | .action name _ _ id =>
        some { s with
          reader := .resolving handlers message, actions := s.actions ++ [(name, id)] }
      | .lambSignalled => some { s with reader := .resolving handlers message }
    | .malformed =>
      if s.warnedMalformed then some s
      else some { s.warn "malformed frame from the shepherd" with warnedMalformed := true }
    | .ended => some { s with reader := .ending handlers }
  | _ => none

/-- `join_handlers`, which ends once every thread has. -/
def joins (s : Served) : Option Served :=
  match s.reader with
  | .joining handlers =>
    if handlers.all s.isFinished then some { s with reader := .resolving [] .shutdown } else none
  | .ending handlers =>
    if handlers.all s.isFinished then some { s with reader := .closing } else none
  | _ => none

/-- `runs_off_reader`. -/
def runsOffReader (resolved : Resolved) (running : ℕ) : Bool :=
  match resolved with
  | .action _ _ _ _ => decide (running < maxConcurrentHandlers)
  | _ => false

/-- The message is looked up, and handed to a thread or kept. -/
def resolves (spawned : Bool) (s : Served) : Option Served :=
  match s.reader with
  | .resolving handlers message =>
    let resolved := s.dispatch.resolve message
    if runsOffReader resolved handlers.length && spawned then
      some { s with
        reader := .reading (handlers ++ [s.handlers.length])
        handlers := s.handlers ++ [.running resolved] }
    else some { s with reader := .answering handlers resolved }
  | _ => none

/-- What an author is told whose app registered nothing. -/
def unhandledShutdownAdvice : String :=
  "the shepherd sent shutdown and no on_shutdown handler is registered. This process will be " ++
    "killed when kill_timeout expires. Register one to stop gracefully."

/-- `answer`, up to the push of a reply. -/
def answers (called : Called) (s : Served) : Option Served :=
  match s.reader with
  | .answering handlers resolved =>
    match run resolved called with
    | .reply reply => some { s with reader := .replying handlers reply }
    | .handled | .ignored => some { s with reader := .reading handlers }
    | .unhandledShutdown =>
      some { s.warn unhandledShutdownAdvice with reader := .reading handlers }
    | .shutdownFailed text =>
      some { s.warn ("shutdown handler panicked: " ++ text) with reader := .reading handlers }
  | _ => none

/-- The push of `answer`: a refusal ends the loop. -/
def replies (s : Served) : Option Served :=
  match s.reader with
  | .replying handlers reply =>
    (s.pushReply reply).map fun pushed =>
      { pushed.1 with reader := if pushed.2 then .reading handlers else .ending handlers }
  | _ => none

def readerCloses (s : Served) : Option Served :=
  match s.reader with
  | .closing => some { s with sending := s.sending.close, reader := .done }
  | _ => none

/-- A handler thread runs what it was given. -/
def handles (thread : ℕ) (called : Called) (s : Served) : Option Served :=
  match s.handlers[thread]? with
  | some (.running resolved) =>
    let handler :=
      match run resolved called with
      | .reply reply => .replying reply
      | _ => .finished
    some { s with handlers := s.handlers.set thread handler }
  | _ => none

/-- And pushes its reply, whether or not it is accepted. -/
def handlerReplies (thread : ℕ) (s : Served) : Option Served :=
  match s.handlers[thread]? with
  | some (.replying reply) =>
    (s.pushReply reply).map fun pushed =>
      { pushed.1 with handlers := pushed.1.handlers.set thread .finished }
  | _ => none

/-- The next state, where the event can happen. The app pushes metrics and
notes to be dropped, and neither of them nor a reply to be kept. -/
def act (event : Event) (s : Served) : Option Served :=
  match event with
  | .lossy message =>
    if message.lossy then some { s with sending := s.sending.pushLossy message } else none
  | .blocking message =>
    match message with
    | .ready | .lambLabel _ =>
      (s.sending.pushBlocking message).map fun pushed => { s with sending := pushed.1 }
    | _ => none
  | .onAction name => some { s with dispatch.actions := s.dispatch.actions ++ [name] }
  | .onShutdown => some { s with dispatch.shutdown := true }
  | .close => some { s with sending := s.sending.close }
  | .take => s.sending.takes.map fun sending => { s with sending }
  | .write ok => (s.sending.writes ok).map fun sending => { s with sending }
  | .wrote => s.sending.reports.map fun sending => { s with sending }
  | .stop => s.sending.stops.map fun sending => { s with sending }
  | .read frame => s.reads frame
  | .join => s.joins
  | .resolve spawned => s.resolves spawned
  | .answer called => s.answers called
  | .reply => s.replies
  | .readerClose => s.readerCloses
  | .handle thread called => s.handles thread called
  | .handlerReply thread => s.handlerReplies thread

/-- The machine. -/
def Step (s : Served) (event : Event) (s' : Served) : Prop := s.act event = some s'

end Served

end Channel

end Shep
