import Mathlib.Data.Nat.Notation
import Mathlib.Logic.Function.Basic
import Shep.Common.Run

/-!
# Boot — the claim on one home

`boot/pidfile.rs`, `boot/socket.rs`'s `bind_socket`, the claim of
`boot_with_sweep` and the teardown of `RunningDaemon::run`, on unix, for any
number of processes over one `$SHEP_HOME`. A step is one system call, or a
stretch of code between two of them that no other process can see into. The
pidfile path and the socket path each name at most one file, a file outlives
the path that named it, and the kernel keeps one exclusive `flock` a file.
Pidfiles and socket files are numbered in the order they are created.

The `pids` directory exists, and no call on a path fails but with
`AlreadyExists`, `NotFound` or a refused connection: any other failure ends
the boot it happens in, which leaves what `crash` leaves.
-/

namespace Shep

namespace Boot

abbrev Pid := ℕ

/-- Who calls `PidfileLock::acquire`. -/
inductive Call where
  | boot
  /-- `daemon_liveness`. -/
  | liveness
  deriving Repr, DecidableEq

/-- Where a process stands. A pid is free again once its process is out. -/
inductive Stage where
  | out
  /-- `acquire` has the pidfile open and has not tried the lock. -/
  | opened (call : Call) (i : ℕ)
  /-- `EWOULDBLOCK`: `read_pidfile` is next. -/
  | refused (call : Call)
  /-- `read_pidfile` has the file open and has not read it. -/
  | reading (call : Call) (i : ℕ)
  /-- A liveness call that took the lock and has not dropped it. -/
  | asking (i : ℕ)
  /-- `bind_socket` is next. -/
  | claimed (i : ℕ)
  /-- `EADDRINUSE`: the probe is next. -/
  | inUse (i : ℕ)
  /-- The probe found nobody. -/
  | probed (i : ℕ)
  /-- The stale socket file is gone. -/
  | unlinked (i : ℕ)
  /-- `bind_socket` returned an error and the lock is about to be dropped. -/
  | failed (i : ℕ)
  /-- `record` is next: a boot that has bound, or a successor. -/
  | bound (i : ℕ) (l : ℕ)
  /-- `record` has truncated the pidfile. -/
  | truncated (i : ℕ) (l : ℕ)
  | serving (i : ℕ) (l : ℕ)
  /-- `serve` has returned, and its listener is closed. -/
  | stopping (i : ℕ)
  /-- The socket path is unlinked. -/
  | unbound (i : ℕ)
  /-- The pidfile path is unlinked, the lock not yet dropped. -/
  | unnamed (i : ℕ)
  deriving Repr, DecidableEq

namespace Stage

/-- The file a process holds the lock of. -/
def lock : Stage → Option ℕ
  | out | opened _ _ | refused _ | reading _ _ => none
  | asking i | claimed i | inUse i | probed i | unlinked i | failed i | bound i _
  | truncated i _ | serving i _ | stopping i | unbound i | unnamed i => some i

/-- The file a process holds the home by: the lock a boot took, until it is
dropped or the teardown unlinks the pidfile it is on. -/
def holds : Stage → Option ℕ
  | out | opened _ _ | refused _ | reading _ _ | asking _ | unnamed _ => none
  | claimed i | inUse i | probed i | unlinked i | failed i | bound i _
  | truncated i _ | serving i _ | stopping i | unbound i => some i

/-- The listener a process has open. -/
def listener : Stage → Option ℕ
  | bound _ l | truncated _ l | serving _ l => some l
  | _ => none

end Stage

/-- One home, as the kernel and the processes have it. -/
structure Home where
  /-- What the pidfile path names. -/
  pidfile : Option ℕ := none
  /-- The next file to be created is this one. -/
  inodes : ℕ := 0
  /-- The pid a pidfile holds, `none` for an empty file. -/
  contents : ℕ → Option Pid := fun _ => none
  flock : ℕ → Option Pid := fun _ => none
  /-- What the socket path names. -/
  socket : Option ℕ := none
  sockets : ℕ := 0
  listening : ℕ → Bool := fun _ => false
  stage : Pid → Stage := fun _ => .out

inductive Act where
  /-- `acquire`'s `open`, `O_CREAT` and no `O_TRUNC`. -/
  | openPidfile (call : Call)
  /-- `acquire`'s `flock(LOCK_EX | LOCK_NB)`. -/
  | flock
  /-- The two halves of `read_pidfile`. -/
  | openToRead
  | read
  /-- The lock is dropped: by a liveness call, a failed boot, or the end of
  `run`. -/
  | drop
  | bind
  | probe
  | removeStale
  | bindAgain
  /-- The two halves of `record`. -/
  | setLen
  | write
  /-- `execve` into a successor, which inherits the lock and the listener. -/
  | handOver
  /-- `serve` returns. -/
  | stop
  | unlinkSocket
  | unlinkPidfile
  | crash
  deriving Repr, DecidableEq

/-- A call of `acquire` begins. -/
def Act.isOpen : Act → Bool
  | openPidfile _ => true
  | _ => false

/-- One process's step. -/
structure Event where
  pid : Pid
  act : Act
  deriving Repr, DecidableEq

namespace Home

variable (s : Home) (p : Pid)

/-- The process moves on. -/
def goTo (g : Stage) : Home := { s with stage := Function.update s.stage p g }

def openPidfile (call : Call) : Home :=
  match s.pidfile with
  | some i => s.goTo p (.opened call i)
  | none =>
    { s with pidfile := some s.inodes, inodes := s.inodes + 1 }.goTo p (.opened call s.inodes)

/-- What a process holding the lock goes on with. -/
def granted : Call → ℕ → Stage
  | .boot, i => .claimed i
  | .liveness, i => .asking i

def tryLock (call : Call) (i : ℕ) : Home :=
  match s.flock i with
  | none => { s with flock := Function.update s.flock i (some p) }.goTo p (granted call i)
  | some _ => s.goTo p (.refused call)

def openToRead (call : Call) : Home :=
  match s.pidfile with
  | some i => s.goTo p (.reading call i)
  | none => s.goTo p .out

/-- `Listener::bind`, which fails on a path that exists. -/
def bindOr (i : ℕ) (inUse : Stage) : Home :=
  match s.socket with
  | none =>
    { s with
      socket := some s.sockets
      sockets := s.sockets + 1
      listening := Function.update s.listening s.sockets true }.goTo p (.bound i s.sockets)
  | some _ => s.goTo p inUse

/-- A connection is answered while a listener is open on the file the path
names. -/
def answered : Bool := s.socket.any s.listening

def probe (i : ℕ) : Home := s.goTo p (if s.answered then .failed i else .probed i)

/-- `remove_file`, which fails on a path that names nothing. -/
def removeStale (i : ℕ) : Home :=
  match s.socket with
  | some _ => { s with socket := none }.goTo p (.unlinked i)
  | none => s.goTo p (.failed i)

def unlock (i : ℕ) : Home := { s with flock := Function.update s.flock i none }

def closeListener (l : ℕ) : Home :=
  { s with listening := Function.update s.listening l false }

/-- The kernel closes what a dead process had open. -/
def crash : Home :=
  let s' := match (s.stage p).lock with
    | some i => s.unlock i
    | none => s
  let s' := match (s.stage p).listener with
    | some l => s'.closeListener l
    | none => s'
  s'.goTo p .out

/-- One step of one process, if it stands where the step begins. -/
def step (e : Event) : Option Home :=
  match e.act, s.stage e.pid with
  | .openPidfile call, .out => some (s.openPidfile e.pid call)
  | .flock, .opened call i => some (s.tryLock e.pid call i)
  | .openToRead, .refused call => some (s.openToRead e.pid call)
  | .read, .reading _ _ => some (s.goTo e.pid .out)
  | .drop, .asking i => some ((s.unlock i).goTo e.pid .out)
  | .drop, .failed i => some ((s.unlock i).goTo e.pid .out)
  | .drop, .unnamed i => some ((s.unlock i).goTo e.pid .out)
  | .bind, .claimed i => some (s.bindOr e.pid i (.inUse i))
  | .probe, .inUse i => some (s.probe e.pid i)
  | .removeStale, .probed i => some (s.removeStale e.pid i)
  | .bindAgain, .unlinked i => some (s.bindOr e.pid i (.failed i))
  | .setLen, .bound i l =>
    some ({ s with contents := Function.update s.contents i none }.goTo e.pid (.truncated i l))
  | .write, .truncated i l =>
    some ({ s with contents := Function.update s.contents i (some e.pid) }.goTo e.pid
      (.serving i l))
  | .handOver, .serving i l => some (s.goTo e.pid (.bound i l))
  | .stop, .serving i l => some ((s.closeListener l).goTo e.pid (.stopping i))
  | .unlinkSocket, .stopping i => some ({ s with socket := none }.goTo e.pid (.unbound i))
  | .unlinkPidfile, .unbound i => some ({ s with pidfile := none }.goTo e.pid (.unnamed i))
  | .crash, _ => some (s.crash e.pid)
  | _, _ => none

/-- One step of one process. -/
def Step (s : Home) (e : Event) (s' : Home) : Prop := s.step e = some s'

end Home

/-! ## What a call of `acquire` answers -/

/-- `Shepherd`. -/
inductive Shepherd where
  | absent
  | running (p : Pid)
  | booting
  deriving Repr, DecidableEq

/-- What a call of `acquire` comes to. -/
inductive Answer where
  /-- What `daemon_liveness` returns. -/
  | found (shepherd : Shepherd)
  /-- `AlreadyRunning`, to a boot. -/
  | alreadyRunning (pid : Option Pid)
  deriving Repr, DecidableEq

/-- A refusal of the lock, with the pid `read_pidfile` read. -/
def Call.refusal : Call → Option Pid → Answer
  | .liveness, some p => .found (.running p)
  | .liveness, none => .found .booting
  | .boot, pid => .alreadyRunning pid

/-- What an event answers to the process it is a step of. -/
def Home.answer (s : Home) (e : Event) : Option Answer :=
  match e.act, s.stage e.pid with
  | .drop, .asking _ => some (.found .absent)
  | .openToRead, .refused call => if s.pidfile = none then some (call.refusal none) else none
  | .read, .reading call i => some (call.refusal (s.contents i))
  | _, _ => none

end Boot

end Shep
