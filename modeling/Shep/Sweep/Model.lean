import Mathlib.Data.Finset.Sort
import Shep.Common.Explore
import Shep.Common.Table

/-!
# Sweep — ending what a process left running

`sweep.rs` and `sweep/table.rs` of the process tree crate: a `Sweeper` looks
at the process table time after time, sends SIGTERM to what its snapshot saw
and to what a walk finds below that, and SIGKILL to what is left when the
grace is spent. `World` is the machine under it: the table at each read, and
what the OS answers to a `kill`. A `Course` is a sweeper with the number of
its next read and the signals it has sent.

Durations and the caller's clock are in nanoseconds. The clock of process
starts is another one, in ticks.
-/

namespace Shep

namespace Sweep

/-- How often a sweep looks again during the grace. -/
def SWEEP_POLL_INTERVAL : ℕ := 100000000

/-- How long it waits for what it killed. -/
def KILL_SETTLE : ℕ := 1000000000

/-- How often it looks meanwhile. -/
def KILL_SETTLE_POLL : ℕ := 10000000

/-! ## The process table -/

/-- A row of the table. Which process it is of, the code cannot read. -/
structure Row where
  pid : ℕ
  parent : Option ℕ
  started : Option ℕ
  zombie : Bool
  process : ℕ
deriving DecidableEq, Repr

/-- One read of the table: a row a pid at most. -/
structure Processes where
  rows : List Row
  keyed : (rows.map Row.pid).Nodup

/-- What the read says of `pid`. -/
def Processes.get (table : Processes) (pid : ℕ) : Option Row :=
  table.rows.find? fun row => row.pid = pid

/-- The children of `pid`, by the parent links of one walk. -/
def Processes.children (table : Processes) (pid : ℕ) : List ℕ :=
  (table.rows.filter fun row => row.parent = some pid).map Row.pid

/-- Every pid below `roots`, the roots themselves excluded. -/
def below (table : Processes) (roots : List ℕ) : List ℕ :=
  (explore table.children (roots.length + table.rows.length) (roots, roots)).filter
    fun pid => pid ∉ roots

/-- Which of the two signals a sweep sends. -/
inductive LambSignal where
  | term
  | kill
deriving DecidableEq, Repr

/-- Why a signal never reached a lamb. -/
inductive SignalError where
  | notALamb (pid : ℕ)
  | refused (reason : String)
deriving DecidableEq, Repr

/-- The machine: the sweeper's own pid, the earliest start that is a real
one, and for each read the clock before it, and the table. `refuses` is why
the OS refuses each `kill` in turn, if it does. -/
structure World where
  own : ℕ
  earliest : ℕ
  time : ℕ → ℕ
  processes : ℕ → Processes
  refuses : ℕ → Option String

/-- The pid `kill` may name, or why it is never a lamb. -/
def lambPid (pid own : ℕ) : Except SignalError ℕ :=
  if pid ≤ 2147483647 ∧ 1 < pid ∧ pid ≠ own then .ok pid else .error (.notALamb pid)

/-! ## Snapshots -/

/-- The pids a sweep may signal, each with the instant it was seen. -/
abbrev LambSnapshot := Std.ExtTreeMap ℕ ℕ

/-- `pids`, as seen at `takenAt`. -/
def LambSnapshot.new (pids : List ℕ) (takenAt : ℕ) : LambSnapshot :=
  pids.foldl (fun seenAt pid => seenAt.insert pid takenAt) ∅

/-- One entry of the other snapshot: the later date stands. -/
def LambSnapshot.mergeOne (seenAt : LambSnapshot) (entry : ℕ × ℕ) : LambSnapshot :=
  seenAt.insert entry.1 (max (seenAt[entry.1]?.getD entry.2) entry.2)

/-- Both snapshots' pids, each dated by the later look that saw it. -/
def LambSnapshot.merge (seenAt other : LambSnapshot) : LambSnapshot :=
  other.toList.foldl mergeOne seenAt

/-- Whether the process `reading` shows is the one seen at `seen`. -/
def stillRuns (earliest seen : ℕ) (reading : Row) : Bool :=
  !reading.zombie && reading.started.any fun started => earliest ≤ started ∧ started ≤ seen

/-- The pids in `snapshot` that `readings` show are still the processes it
saw. -/
def survivorsIn (snapshot : LambSnapshot) (readings : Processes) (own earliest : ℕ) : List ℕ :=
  (snapshot.keys.filter fun pid => (lambPid pid own).isOk).filter fun pid =>
    (readings.get pid).any fun reading =>
      snapshot[pid]?.any fun seen => stillRuns earliest seen reading

/-- The survivors of `snapshot` at the given read. -/
def World.survivors (w : World) (read : ℕ) (snapshot : LambSnapshot) : List ℕ :=
  survivorsIn snapshot (w.processes read) w.own w.earliest

/-- A walk: every descendant of `roots`, dated by the walk's instant. -/
def World.descendants (w : World) (read : ℕ) (roots : List ℕ) : LambSnapshot :=
  .new (below (w.processes read) roots) (w.time read)

/-- The leader's tree, if it is below the sweeping process. -/
def World.snapshot (w : World) (read rootPid : ℕ) : LambSnapshot :=
  if rootPid ∈ below (w.processes read) [w.own] then w.descendants read [rootPid] else ∅

/-! ## The sweeper -/

/-- What one sweep signalled. -/
structure SweepReport where
  termed : List ℕ := []
  killed : List ℕ := []
  refused : List (ℕ × LambSignal × SignalError) := []
  stuck : List ℕ := []
deriving DecidableEq

/-- What a sweeper asks of its caller next. -/
inductive Step where
  | wait (sleep : ℕ)
  | done (report : SweepReport)
deriving DecidableEq

/-- Which rung a sweep is on. -/
inductive Phase where
  | signalling
  | settling (startedAt : ℕ)
  | done
deriving DecidableEq

/-- One lamb sweep. -/
structure Sweeper where
  snapshot : LambSnapshot
  grace : ℕ
  phase : Phase := .signalling
  startedAt : Option ℕ := none
  termed : Finset ℕ := ∅
  killed : List ℕ := []
  refused : List (ℕ × LambSignal × SignalError) := []

def Sweeper.report (s : Sweeper) (stuck : List ℕ) : SweepReport :=
  { termed := s.termed.sort, killed := s.killed, refused := s.refused, stuck := stuck }

/-- A `kill` that was made, and the read its pid was taken for a lamb in. -/
structure Sent where
  pid : ℕ
  signal : LambSignal
  look : ℕ
deriving DecidableEq, Repr

/-- A sweeper at work: the number of its next read and what it has sent. -/
structure Course where
  sweeper : Sweeper
  read : ℕ
  sent : List Sent := []

/-- A sweep of `snapshot`'s lambs that has not looked yet. -/
def Course.new (snapshot : LambSnapshot) (grace read : ℕ) : Course :=
  { sweeper := { snapshot := snapshot, grace := grace }, read := read }

/-- Where a step leaves the sweep. -/
def Course.into (c : Course) (phase : Phase) : Course :=
  { c with sweeper := { c.sweeper with phase := phase } }

/-- A refusal, recorded. -/
def Course.refuse (c : Course) (pid : ℕ) (signal : LambSignal) (error : SignalError) : Course :=
  { c with sweeper := { c.sweeper with refused := c.sweeper.refused ++ [(pid, signal, error)] } }

/-- One signal, to a pid taken for a lamb at the read `seen` gives. -/
def Course.signalOne (w : World) (seen : ℕ → ℕ) (signal : LambSignal) (c : Course) (pid : ℕ) :
    Course :=
  match lambPid pid w.own with
  | .error error => c.refuse pid signal error
  | .ok pid =>
    let sent := { c with sent := c.sent ++ [⟨pid, signal, seen pid⟩] }
    match w.refuses c.sent.length with
    | some reason => sent.refuse pid signal (.refused reason)
    | none => sent

/-- Sends `signal` to each of `pids`, recording every refusal. -/
def Course.deliver (w : World) (seen : ℕ → ℕ) (pids : List ℕ) (signal : LambSignal) (c : Course) :
    Course :=
  pids.foldl (signalOne w seen signal) c

/-- Those of `alive` this look is the first to see, in order, and the
termed pids with them. -/
def firstSeen : List ℕ → Finset ℕ → List ℕ × Finset ℕ
  | [], termed => ([], termed)
  | pid :: alive, termed =>
    let (first, termed') := firstSeen alive (insert pid termed)
    (if pid ∈ termed then first else pid :: first, termed')

/-- The survivors, with what a walk from them finds if all of them are there
after it. -/
def Course.walkFrom (w : World) (roots : List ℕ) (c : Course) : List ℕ × Course :=
  let born := w.descendants c.read roots
  if born.isEmpty then (roots, { c with read := c.read + 1 })
  else
    let still := w.survivors (c.read + 1) c.sweeper.snapshot
    let c' := { c with read := c.read + 2 }
    if roots.all (· ∈ still) then
      (((roots ++ born.keys).insertionSort (· ≤ ·)).dedup,
        { c' with sweeper := { c.sweeper with snapshot := c.sweeper.snapshot.merge born } })
    else (roots.filter (· ∈ still), c')

/-- The grace is spent: kill what is left, or report and stop. -/
def Course.finish (w : World) (seen : ℕ → ℕ) (killed : List ℕ) (now : ℕ) (c : Course) :
    Course × Step :=
  if c.sweeper.termed = ∅ then (c.into .done, .done {})
  else if killed = [] then (c.into .done, .done (c.sweeper.report []))
  else
    let c' := c.deliver w seen killed .kill
    ({ c' with sweeper := { c'.sweeper with killed := killed, phase := .settling now } },
      .wait KILL_SETTLE_POLL)

/-- SIGTERM to those of `alive` seen for the first time. -/
def Course.terminate (w : World) (seen : ℕ → ℕ) (alive : List ℕ) (c : Course) : Course :=
  let (first, termed) := firstSeen alive c.sweeper.termed
  { c with sweeper := { c.sweeper with termed := termed } }.deliver w seen first .term

/-- What is left of the grace. -/
def Course.left (now startedAt : ℕ) (c : Course) : ℕ := c.sweeper.grace - (now - startedAt)

/-- One look at the survivors: re-check them, walk from them, and SIGTERM
whatever this look is the first to see. -/
def Course.look (w : World) (now : ℕ) (c : Course) : Course × Step :=
  if c.sweeper.snapshot.isEmpty then (c.into .done, .done {})
  else
    let startedAt := c.sweeper.startedAt.getD now
    let roots := w.survivors c.read c.sweeper.snapshot
    let c₀ := { c with
      sweeper := { c.sweeper with startedAt := some startedAt }, read := c.read + 1 }
    -- the roots are seen at this look's first read, what the walk finds at its second
    let seen := fun pid => if pid ∈ roots then c.read else c.read + 1
    if roots = [] then c₀.finish w seen [] now
    else
      let (alive, c₁) := c₀.walkFrom w roots
      let c₂ := c₁.terminate w seen alive
      if c₂.left now startedAt = 0 then c₂.finish w seen alive now
      else (c₂, .wait (min (c₂.left now startedAt) SWEEP_POLL_INTERVAL))

/-- One look of the settle. -/
def Course.settle (w : World) (startedAt now : ℕ) (c : Course) : Course × Step :=
  let left := w.survivors c.read c.sweeper.snapshot
  let remaining := KILL_SETTLE - (now - startedAt)
  let c' := { c with read := c.read + 1 }
  if left = [] ∨ remaining = 0 then (c'.into .done, .done (c'.sweeper.report left))
  else (c', .wait (min remaining KILL_SETTLE_POLL))

/-- Takes one rung of the sweep. -/
def Course.step (w : World) (now : ℕ) (c : Course) : Course × Step :=
  match c.sweeper.phase with
  | .signalling => c.look w now
  | .settling startedAt => c.settle w startedAt now
  | .done => (c, .done {})

/-- One step after another, at the given moments. -/
def Course.run (w : World) : List ℕ → Course → Course
  | [], c => c
  | now :: nows, c => run w nows (c.step w now).1

/-- Steps by the caller that sleeps as it is told, `fuel` of them at most:
where the sweep is, and when its next step is due or its last one was. -/
def Course.paced (w : World) : ℕ → ℕ → Course → Course × ℕ
  | 0, now, c => (c, now)
  | fuel + 1, now, c =>
    match c.step w now with
    | (c', .wait sleep) => paced w fuel (now + sleep) c'
    | (c', .done _) => (c', now)

end Sweep

end Shep
