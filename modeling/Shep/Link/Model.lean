import Shep.Common.Framing
import Shep.Common.Run

/-!
# Link — one dog's connection, and the freeze that parks it

`server/conn_protocol.rs`'s `handshake`, `read_loop`, `next_frame` and
`write_loop`, `tracked_codec.rs`, and the row `link_table.rs` keeps for the
connection. The reader and the writer are two tasks with a bounded queue
between them; each step below is what one of them does between two points
where the other, the freeze or the dog can come in. `freeze` and `thaw`
move the table's flag and `copy` is the end of `DogLinks::freeze`, which
returns the rows whose two sides are parked: what the other rows do decides
only when it comes.

What the dog sends arrives as bytes and is read in chunks of any size. The
requests themselves stay closed: what `dispatch` makes of one is the
event's.
-/

namespace Shep

namespace Link

open Framing

/-- `CONN_QUEUE`. -/
def connQueue : ℕ := 64

/-- `MAX_FRAME_BYTES`. -/
def maxFrameBytes : ℕ := 16 * 1024 * 1024

/-! ## What is written -/

/-- What an answer tells the dog. -/
inductive Tells where
  /-- `HelloAck`. -/
  | greeting
  /-- A `Hello` refused on protocol skew. -/
  | refusal
  | subscribed (patterns : List String)
  | other
  deriving Repr, DecidableEq

/-- A frame for the dog: the answer to the frame numbered `n`, the `Hello`
being number 0, or an event of a subscription or an attached terminal. -/
inductive Out where
  | answer (n : ℕ) (tells : Tells) (payload : List UInt8)
  | event (payload : List UInt8)
  deriving Repr, DecidableEq

namespace Out

def payload : Out → List UInt8
  | answer _ _ payload => payload
  | event payload => payload

/-- The number of the frame it answers. -/
def number : Out → Option ℕ
  | answer n _ _ => some n
  | event _ => none

/-- Whether it is the `HelloAck`. -/
def greets : Out → Bool
  | answer _ .greeting _ => true
  | _ => false

/-- The topics it acknowledges. -/
def patterns : Out → Option (List String)
  | answer _ (.subscribed patterns) _ => some patterns
  | _ => none

end Out

/-- The numbers of the frames a list of frames answers. -/
def numbers (outs : List Out) : List ℕ := outs.filterMap Out.number

/-- The bytes of a list of frames. -/
def wireOf (outs : List Out) : List UInt8 := (outs.map fun out => onWire out.payload).flatten

/-- What a dog has been told of its subscription: nothing before its
`HelloAck`, then the topics of the last `Subscribe` acknowledged. -/
def told (outs : List Out) : Option (List String) :=
  if outs.any Out.greets then some ((outs.filterMap Out.patterns).getLast?.getD []) else none

/-! ## The two tasks -/

/-- Where the reader stands: in `next_frame`, or with a frame in hand. -/
inductive Reading where
  /-- The head of `next_frame`'s loop. -/
  | top
  /-- In the `select!`, about to ask whether the table is frozen. -/
  | looking
  /-- In the `select!`, polling the stream. -/
  | polling
  /-- In the `select!`, both branches pending. -/
  | sleeping
  /-- Polling the stream for the rest of a frame, freeze or not. -/
  | draining
  /-- In `park`, before, while and after it waits for a thaw. -/
  | parking
  | parked
  | leaving
  /-- A frame is in hand. -/
  | delivered
  /-- In `Lease::greeted`. -/
  | greeting (payload : List UInt8)
  /-- In `Lease::subscribed`. -/
  | recording (patterns : List String) (payload : List UInt8)
  /-- In `send`; `last` when the connection ends behind it. -/
  | sending (out : Out) (last : Bool)
  /-- The reader has returned, with a frame unanswered or none. -/
  | ended (unanswered : Bool)
  deriving Repr, DecidableEq

/-- Where the writer stands. -/
inductive Writing where
  /-- In the `select!`, about to ask whether the table is frozen. -/
  | looking
  /-- In the `select!`, at the queue. -/
  | receiving
  /-- Feeding the `fed`th frame of a batch. -/
  | feeding (out : Out) (fed : ℕ)
  | flushing
  | parking
  | parked
  | leaving
  /-- The peer is gone, with a frame in hand or none. -/
  | gone (lost : List Out)
  deriving Repr, DecidableEq

/-- `Held`, as far as a connection writes it. -/
structure Row where
  topics : Option (List String) := none
  readerParked : Bool := false
  writerParked : Bool := false
  deriving Repr, DecidableEq

/-- `Held::parked`. -/
def Row.parked (row : Row) : Bool := row.readerParked && row.writerParked

/-- A connection, its row and the table's flag. `taken`, `frames` and `fed`
record what has been read, delivered and fed since it was opened, and
`carried` what the last freeze returned of it. -/
structure Conn where
  frozen : Bool := false
  row : Row := {}
  carried : Option (Option (List String)) := none
  incoming : List UInt8 := []
  taken : List UInt8 := []
  /-- `LengthDelimitedCodec`'s state, `FramedRead`'s buffer and whether it
  is worth decoding, and `TrackedCodec::holding`. -/
  awaited : Awaited := .head
  buffer : List UInt8 := []
  readable : Bool := false
  holding : Bool := false
  reader : Reading := .top
  greeted : Bool := false
  frames : List (List UInt8) := []
  queue : List Out := []
  writer : Writing := .looking
  sink : List UInt8 := []
  sent : List UInt8 := []
  fed : List Out := []
  deriving Repr, DecidableEq

/-- What `dispatch` makes of a request. -/
inductive Outcome where
  | reply
  | subscribe (patterns : List String)
  | attach
  | shutdown
  deriving Repr, DecidableEq

/-- What becomes of a `Hello`. -/
inductive Verdict where
  | welcome
  | refuse
  deriving Repr, DecidableEq

/-- A step of the reader. -/
inductive ReaderEvent where
  | next
  | look
  /-- Takes so many bytes off the socket. -/
  | read (count : ℕ)
  | decode
  | pend
  | wake
  /-- The stream ends, breaks or, before the `Hello`, times out. -/
  | hangUp
  | park
  | leave
  | resume
  /-- The frame in hand does not decode. -/
  | reject
  | greet (verdict : Verdict) (payload : List UInt8)
  | dispatch (outcome : Outcome) (payload : List UInt8)
  | record
  | enqueue
  /-- The queue is closed: the writer has gone. -/
  | peerGone
  deriving Repr, DecidableEq

/-- A step of the writer. -/
inductive WriterEvent where
  | look
  | receive
  | pend
  | feed
  /-- The socket takes so many bytes. -/
  | write (count : ℕ)
  | flush
  | park
  | leave
  | resume
  | fail
  deriving Repr, DecidableEq

/-- What can happen to a connection. -/
inductive Event where
  /-- The dog sends bytes. -/
  | arrive (bytes : List UInt8)
  /-- A forwarder queues an event. -/
  | emit (payload : List UInt8)
  | freeze
  | copy
  | thaw
  | reader (event : ReaderEvent)
  | writer (event : WriterEvent)
  deriving Repr, DecidableEq

namespace Conn

/-- `TrackedCodec::decode`, and what `next_frame` and `FramedRead` make of
the frame or of its absence. -/
def decodeFrame (l : Conn) : Conn :=
  match decode maxFrameBytes l.awaited l.buffer with
  | .tooLong => { l with reader := .ended false }
  | .item frame awaited src =>
    let holding :=
      match frame with
      | some _ => !src.isEmpty
      | none => !src.isEmpty || src.length < l.buffer.length
    match frame with
    | some payload =>
      { l with awaited := awaited, buffer := src, holding := holding
               frames := l.frames ++ [payload], reader := .delivered }
    | none => { l with awaited := awaited, buffer := src, holding := holding, readable := false }

/-- Reads a chunk into the buffer. -/
def readChunk (l : Conn) (count : ℕ) : Conn :=
  { l with
    incoming := l.incoming.drop count
    taken := l.taken ++ l.incoming.take count
    buffer := l.buffer ++ l.incoming.take count
    readable := true }

/-- The answer to the frame in hand. -/
def answer (l : Conn) (tells : Tells) (payload : List UInt8) : Out :=
  .answer (l.frames.length - 1) tells payload

/-- The chunk a read of `count` bytes would take is one the socket has. -/
def offers (l : Conn) (count : ℕ) : Bool := 0 < count && count ≤ l.incoming.length

/-- A step of the reader, if it stands where the step begins. -/
def readerStep (l : Conn) (e : ReaderEvent) : Option Conn :=
  match e, l.reader with
  | .next, .top => some { l with reader := if l.holding then .draining else .looking }
  | .look, .looking =>
    some { l with reader :=
      if l.frozen then (if l.holding then .top else .parking) else .polling }
  | .read count, .polling =>
    if !l.readable && l.offers count then some (l.readChunk count) else none
  | .read count, .draining =>
    if !l.readable && l.offers count then some (l.readChunk count) else none
  | .decode, .polling => if l.readable then some l.decodeFrame else none
  | .decode, .draining => if l.readable then some l.decodeFrame else none
  | .pend, .polling => if l.readable then none else some { l with reader := .sleeping }
  | .wake, .sleeping => some { l with reader := .looking }
  | .hangUp, .polling => if l.readable then none else some { l with reader := .ended false }
  | .hangUp, .draining => if l.readable then none else some { l with reader := .ended false }
  | .hangUp, .sleeping => if l.greeted then none else some { l with reader := .ended false }
  | .hangUp, .parked => if l.greeted then none else some { l with reader := .ended false }
  | .park, .parking =>
    some { l with reader := .parked, row := { l.row with readerParked := true } }
  | .leave, .parked => if l.frozen then none else some { l with reader := .leaving }
  | .resume, .leaving =>
    some { l with reader := .top, row := { l.row with readerParked := false } }
  | .reject, .delivered => some { l with reader := .ended true }
  | .greet verdict payload, .delivered =>
    if l.greeted then none
    else
      match verdict with
      | .welcome => some { l with reader := .greeting payload }
      | .refuse => some { l with reader := .sending (l.answer .refusal payload) true }
  | .dispatch outcome payload, .delivered =>
    if l.greeted then
      match outcome with
      | .reply | .attach => some { l with reader := .sending (l.answer .other payload) false }
      | .subscribe patterns => some { l with reader := .recording patterns payload }
      | .shutdown => some { l with reader := .sending (l.answer .other payload) true }
    else none
  | .record, .greeting payload =>
    if l.frozen then none
    else some { l with
      row := { l.row with topics := some (l.row.topics.getD []) }
      reader := .sending (l.answer .greeting payload) false }
  | .record, .recording patterns payload =>
    if l.frozen then none
    else some { l with
      row := { l.row with topics := some patterns }
      reader := .sending (l.answer (.subscribed patterns) payload) false }
  | .enqueue, .sending out last =>
    match l.writer with
    | .gone _ => none
    | _ =>
      if l.queue.length < connQueue then
        some { l with
          queue := l.queue ++ [out]
          greeted := l.greeted || out.greets
          reader := if last then .ended false else .top }
      else none
  | .peerGone, .sending _ _ =>
    match l.writer with
    | .gone _ => some { l with reader := .ended true }
    | _ => none
  | _, _ => none

/-- A step of the writer, if it stands where the step begins. A batch is
capped at the queue's length. -/
def writerStep (l : Conn) (e : WriterEvent) : Option Conn :=
  match e, l.writer with
  | .look, .looking => some { l with writer := if l.frozen then .parking else .receiving }
  | .receive, .receiving =>
    match l.queue with
    | out :: rest => some { l with queue := rest, writer := .feeding out 0 }
    | [] => none
  | .pend, .receiving => if l.queue.isEmpty then some { l with writer := .looking } else none
  | .feed, .feeding out fed =>
    let l := { l with sink := l.sink ++ onWire out.payload, fed := l.fed ++ [out] }
    match l.queue with
    | out :: rest =>
      if fed + 1 < connQueue then some { l with queue := rest, writer := .feeding out (fed + 1) }
      else some { l with writer := .flushing }
    | [] => some { l with writer := .flushing }
  | .write count, .feeding _ _ =>
    some { l with sent := l.sent ++ l.sink.take count, sink := l.sink.drop count }
  | .write count, .flushing =>
    some { l with sent := l.sent ++ l.sink.take count, sink := l.sink.drop count }
  | .flush, .flushing => if l.sink.isEmpty then some { l with writer := .looking } else none
  | .park, .parking =>
    some { l with writer := .parked, row := { l.row with writerParked := true } }
  | .leave, .parked => if l.frozen then none else some { l with writer := .leaving }
  | .resume, .leaving =>
    some { l with writer := .looking, row := { l.row with writerParked := false } }
  | .fail, .feeding out _ => some { l with writer := .gone [out] }
  | .fail, .flushing => some { l with writer := .gone [] }
  | _, _ => none

/-- One event, if it can happen. -/
def step (l : Conn) : Event → Option Conn
  | .arrive bytes => some { l with incoming := l.incoming ++ bytes }
  | .emit payload =>
    if l.queue.length < connQueue then some { l with queue := l.queue ++ [.event payload] }
    else none
  | .freeze => some { l with frozen := true }
  | .copy =>
    if l.frozen then
      some { l with carried := if l.row.parked then some l.row.topics else none }
    else none
  | .thaw => some { l with frozen := false, carried := none }
  | .reader event => l.readerStep event
  | .writer event => l.writerStep event

/-- One event. -/
def Step (l : Conn) (e : Event) (l' : Conn) : Prop := l.step e = some l'

end Conn

end Link

end Shep
