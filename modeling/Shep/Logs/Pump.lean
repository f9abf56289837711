import Shep.Common.Run
import Shep.Logs.Model

/-!
# Logs — the pump

`tokio_runner`'s log pump: `line_reader.rs`, the `append`, `flush`, `reopen`
and `serve` of `log_file.rs`, and `deliver_line`, `reserve_slot`,
`drain_ready`, `final_drain` and `spawn_log_pump` of `pump.rs`. One event is
one thing a `select!` may see: a poll of a stream that takes as much off its
pipe as is there, a request, room on `logs`, a timer. Which timers may fire
is in the model, and when they do is not. The errors of the files and the
acknowledgements of the requests are left out.
-/

namespace Shep

namespace Logs

open Utf8

/-- `\r`. -/
def carriageReturn : UInt8 := 0x0d

/-- `CHANNEL_CAPACITY`. -/
def channelCapacity : ℕ := 32

/-- `LOG_BUFFER`. -/
def logBuffer : ℕ := 8 * 1024

/-- `READ_BUFFER`. -/
def readBuffer : ℕ := 8 * 1024

/-- `LIVE_WAIT`, in milliseconds. -/
def liveWait : ℕ := 100

/-- What there is of both streams; `true` is stderr. -/
structure Both (α : Type) where
  out : α
  err : α

namespace Both

variable {α : Type}

/-- `stream`. -/
def get (b : Both α) (err : Bool) : α := if err then b.err else b.out

def set (b : Both α) (err : Bool) (a : α) : Both α :=
  if err then { b with err := a } else { b with out := a }

@[simp] theorem get_set (b : Both α) (err err' : Bool) (a : α) :
    (b.set err a).get err' = if err' = err then a else b.get err' := by
  cases err <;> cases err' <;> rfl

end Both

/-! ## Lines off a stream -/

/-- `str::from_utf8` takes the line. -/
def isUtf8 (line : List UInt8) : Bool := (fromUtf8 line).isNone

/-- What one poll of `read_line` comes back with. -/
inductive Read where
  | pending
  | line (text : List UInt8)
  | invalid
  | eof
  deriving Repr, DecidableEq

/-- `LineReader`: what its `BufReader` holds, and the scratch. -/
structure LineReader where
  buffer : List UInt8 := []
  buf : List UInt8 := []
  handedOut : Bool := false
  deriving Repr, DecidableEq

namespace LineReader

/-- `release`. -/
def release (r : LineReader) : LineReader := { r with buf := [], handedOut := false }

/-- The start of `read_line`. -/
def begin (r : LineReader) : LineReader := if r.handedOut then r.release else r

/-- The end of `read_line`, of a line that is there. -/
def complete (r : LineReader) : LineReader × Read :=
  let line :=
    if r.buf.getLast? = some newline then
      let cut := r.buf.dropLast
      if cut.getLast? = some carriageReturn then cut.dropLast else cut
    else r.buf
  ({ r with buf := line, handedOut := true }, if isUtf8 line then .line line else .invalid)

end LineReader

/-- One stream: its reader, and what the child writes that is not read
yet. -/
structure Stream where
  rest : List UInt8
  reader : LineReader := {}
  deriving Repr, DecidableEq

namespace Stream

/-- One poll of `read_line` that may take `n` bytes off the pipe, if the
reader holds none. -/
def readLine (n : ℕ) (s : Stream) : Stream × Read :=
  let r := s.reader.begin
  let n := if r.buffer.isEmpty then min n readBuffer else 0
  let buffer := r.buffer ++ s.rest.take n
  let rest := s.rest.drop n
  match buffer.idxOf? newline with
  | some at' =>
    let (r, read) := LineReader.complete
      { r with buf := r.buf ++ buffer.take (at' + 1), buffer := buffer.drop (at' + 1) }
    (⟨rest, r⟩, read)
  | none => (⟨rest, { r with buf := r.buf ++ buffer, buffer := [] }⟩, .pending)

/-- The poll that finds the end of the pipe. -/
def readEnd (s : Stream) : Stream × Read :=
  let r := s.reader.begin
  if r.buf.isEmpty then (⟨s.rest, r⟩, .eof)
  else
    let (r, read) := r.complete
    (⟨s.rest, r⟩, read)

/-- Nothing is left to read. -/
def AtEnd (s : Stream) : Prop := s.reader.buffer = [] ∧ s.rest = []

instance (s : Stream) : Decidable s.AtEnd := inferInstanceAs (Decidable (_ ∧ _))

/-- `read_line_owned` forgets the line it has copied out. -/
def release (s : Stream) : Stream := { s with reader := s.reader.release }

end Stream

/-! ## The files -/

/-- `LogFile`: the stamps it renders, how many records it has taken, what has
gone to its path through this handle and those before it, and what is
buffered. -/
structure LogFile where
  stamper : Option (ℕ → List UInt8) := none
  records : ℕ := 0
  written : List UInt8 := []
  buffer : List UInt8 := []
  bufferedSince : Bool := false

namespace LogFile

/-- `write_all`, of a `BufWriter` of `LOG_BUFFER` bytes. -/
def writeAll (data : List UInt8) (f : LogFile) : LogFile :=
  let f :=
    if logBuffer < f.buffer.length + data.length then
      { f with written := f.written ++ f.buffer, buffer := [] }
    else f
  if logBuffer ≤ data.length then { f with written := f.written ++ data }
  else { f with buffer := f.buffer ++ data }

/-- `append`. -/
def append (line : List UInt8) (f : LogFile) : LogFile :=
  let stamp := match f.stamper with
    | some stampInto => stampInto f.records
    | none => []
  { ({ f with records := f.records + 1 }.writeAll (stamp ++ line ++ [newline])) with
    bufferedSince := true }

/-- `flush`. -/
def flush (f : LogFile) : LogFile :=
  { f with written := f.written ++ f.buffer, buffer := [], bufferedSince := false }

/-- `reopen`: the handle is flushed and closed, and the next one is empty. -/
def reopen (f : LogFile) : LogFile := f.flush

end LogFile

/-! ## The pump -/

/-- `LogCtl`. -/
inductive LogCtl where
  | reopen
  | flush
  | reportFds
  | resume
  deriving Repr, DecidableEq

/-- Where the pump's task is: in its `select!`, in the one of `reserve_slot`
with a line in hand (with a bound on the wait, and with nobody left to make
requests), in `final_drain`, or at its end. -/
inductive Phase where
  | reading
  | waiting (err : Bool) (line : List UInt8) (bounded ctlGone : Bool)
  | draining
  | ended
  deriving Repr, DecidableEq

/-- The pump, its files, and the state of its channels: what `logs` holds,
whether its receiver is gone, and every live copy sent. -/
structure Pump where
  streams : Both (Option Stream)
  files : Both LogFile
  pty : Bool
  parked : Bool := false
  behind : Bool := false
  liveWaited : ℕ := 0
  queued : ℕ := 0
  logsClosed : Bool := false
  ctlClosed : Bool := false
  sent : List (Bool × List UInt8) := []
  phase : Phase := .reading

/-- What the pump may see. -/
inductive Event where
  | poll (err : Bool) (n : ℕ)
  | eof (err : Bool)
  | fail (err : Bool)
  | ctl (request : LogCtl)
  | ctlNone
  | logsDropped
  | logsSeen
  | received
  | slot (elapsed : ℕ)
  | slotClosed
  | deadline (elapsed : ℕ)
  | idleFlush
  | drainTimeout
  deriving Repr, DecidableEq

namespace Pump

/-- `files.stream(err).append(line)`. -/
def append (err : Bool) (line : List UInt8) (p : Pump) : Pump :=
  { p with files := p.files.set err ((p.files.get err).append line) }

/-- `flush_idle`. -/
def flushIdle (p : Pump) : Pump :=
  { p with files := ⟨p.files.out.flush, p.files.err.flush⟩ }

/-- The end of the task. -/
def close (p : Pump) : Pump := { p.flushIdle with phase := .ended }

/-- No stream is left. -/
def exhausted (p : Pump) : Bool := p.streams.out.isNone && p.streams.err.isNone

/-- Behind the loop: a pump that is not parked drains what the streams still
hold. -/
def leave (p : Pump) : Pump :=
  if p.parked || p.exhausted then p.close else { p with phase := .draining }

/-- The next turn of the loop, while there is a stream to read. -/
def proceed (p : Pump) : Pump :=
  if p.exhausted then p.leave else { p with phase := .reading }

/-- `keeps_reading`. -/
def keepsReading (p : Pump) : Bool := p.pty

/-- A copy goes out on `logs`. -/
def send (err : Bool) (line : List UInt8) (p : Pump) : Pump :=
  { p with queued := p.queued + 1, sent := p.sent ++ [(err, line)] }.proceed

/-- The line in hand is in its file alone. -/
def giveUp (p : Pump) : Pump := { p with behind := true }.proceed

/-- `take_slot`, and what comes of it. -/
def takeSlot (err : Bool) (line : List UInt8) (full : Pump → Pump) (p : Pump) : Pump :=
  if p.logsClosed then p.leave
  else if p.queued < channelCapacity then p.send err line
  else full p

/-- `reserve_slot`, up to its `select!`. -/
def reserveSlot (err : Bool) (line : List UInt8) (p : Pump) : Pump :=
  p.takeSlot err line fun p =>
    if p.keepsReading && liveWait ≤ p.liveWaited then p.giveUp
    else { p with phase := .waiting err line p.keepsReading false }

/-- `deliver_line`, of a line. -/
def deliverLine (err : Bool) (line : List UInt8) (p : Pump) : Pump :=
  let p := p.append err line
  let p := if p.queued = 0 then { p with behind := false, liveWaited := 0 } else p
  p.reserveSlot err line

/-- The loop's `StreamEnded`. -/
def streamEnded (err : Bool) (p : Pump) : Pump :=
  { p with
    streams := p.streams.set err none
    pty := if err then p.pty else false }.proceed

/-- One stream of `final_drain` is done. -/
def drained (err : Bool) (p : Pump) : Pump :=
  let p := { p with streams := p.streams.set err none }
  if p.exhausted then p.close else p

/-- What the loop, or `final_drain`, makes of a poll. -/
def answered (err : Bool) (s : Stream) (read : Read) (p : Pump) : Option Pump :=
  match p.phase with
  | .reading =>
    if p.parked then none
    else match read with
      | .pending => some { p with streams := p.streams.set err (some s) }
      | .line text =>
        some ({ p with streams := p.streams.set err (some s.release) }.deliverLine err text)
      | .invalid | .eof => some (p.streamEnded err)
  | .draining =>
    match read with
    | .pending => some { p with streams := p.streams.set err (some s) }
    | .line text => some ({ p with streams := p.streams.set err (some s) }.append err text)
    | .invalid | .eof => some (p.drained err)
  | _ => none

/-- `drain_ready`, of a reader that holds `fuel` bytes. -/
def drainReady : ℕ → Stream → LogFile → Stream × LogFile
  | 0, s, f => (s, f)
  | fuel + 1, s, f =>
    if newline ∈ s.reader.buffer then
      match s.readLine 0 with
      | (s, .line text) => drainReady fuel s (f.append text)
      | (s, _) => (s, f)
    else (s, f)

/-- `drain_ready`, of one of the streams. -/
def drainStream (err : Bool) (p : Pump) : Pump :=
  match p.streams.get err with
  | none => p
  | some s =>
    let (s, f) := drainReady s.reader.buffer.length s (p.files.get err)
    { p with streams := p.streams.set err (some s), files := p.files.set err f }

/-- `serve`. -/
def serve (request : LogCtl) (p : Pump) : Pump :=
  match request with
  | .reopen => { p with files := ⟨p.files.out.reopen, p.files.err.reopen⟩ }
  | .flush => { p with files := ⟨p.files.out.flush, p.files.err.flush⟩ }
  | .reportFds => (({ p with parked := true }.drainStream false).drainStream true).flushIdle
  | .resume => { p with parked := false }

/-- One event; `none` where the pump cannot see it. -/
def step (event : Event) (p : Pump) : Option Pump :=
  match event with
  | .poll err n =>
    match p.streams.get err with
    | none => none
    | some s => p.answered err (s.readLine n).1 (s.readLine n).2
  | .eof err =>
    match p.streams.get err with
    | none => none
    | some s => if s.AtEnd then p.answered err s.readEnd.1 s.readEnd.2 else none
  | .fail err =>
    match p.streams.get err with
    | none => none
    | some s => if s.reader.buffer.isEmpty then p.answered err s .invalid else none
  | .ctl request =>
    if p.ctlClosed then none
    else match p.phase with
      | .reading | .waiting _ _ _ false => some (p.serve request)
      | _ => none
  | .ctlNone =>
    match p.phase with
    | .reading => some { p with ctlClosed := true }.leave
    | .waiting err line bounded false =>
      some { p with ctlClosed := true, phase := .waiting err line bounded true }
    | _ => none
  | .logsDropped => some { p with logsClosed := true }
  | .logsSeen =>
    match p.phase with
    | .reading => if p.logsClosed then some p.leave else none
    | _ => none
  | .received =>
    if p.queued = 0 || p.logsClosed then none else some { p with queued := p.queued - 1 }
  | .slot elapsed =>
    match p.phase with
    | .waiting err line bounded ctlGone =>
      if p.logsClosed || channelCapacity ≤ p.queued then none
      else
        let counted := if ctlGone && !bounded then 0 else elapsed
        some ({ p with liveWaited := p.liveWaited + counted }.send err line)
    | _ => none
  | .slotClosed =>
    match p.phase with
    | .waiting _ _ _ _ => if p.logsClosed then some p.leave else none
    | _ => none
  | .deadline elapsed =>
    match p.phase with
    | .waiting err line true ctlGone =>
      let p := { p with liveWaited := p.liveWaited + elapsed }
      some (if ctlGone then p.giveUp else p.takeSlot err line giveUp)
    | _ => none
  | .idleFlush =>
    if p.files.out.bufferedSince || p.files.err.bufferedSince then
      match p.phase with
      | .reading | .waiting _ _ _ false => some p.flushIdle
      | _ => none
    else none
  | .drainTimeout =>
    match p.phase with
    | .draining => some p.close
    | _ => none

/-- A pump as it is spawned, over what each stream will write. -/
def spawn (texts : Both (Option (List UInt8))) (stampers : Both (Option (ℕ → List UInt8)))
    (pty : Bool) : Pump :=
  proceed
    { streams := ⟨texts.out.map fun rest => { rest }, texts.err.map fun rest => { rest }⟩
      files := ⟨{ stamper := stampers.out }, { stamper := stampers.err }⟩
      pty }

/-- One event of a run. -/
def Step (p : Pump) (event : Event) (p' : Pump) : Prop := p.step event = some p'

end Pump

end Logs

end Shep
