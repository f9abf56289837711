import Shep.Limits.Sample
import Shep.Sweep.Model

/-!
# Limits — the polling tick beside the supervisor

`limits/stats.rs` and `limits/mod.rs`: what the supervisor watches and arms,
and the tick that samples the process table once and writes back what it
read, in three places and each under its own lock: the CPU baselines, the
lambs of every watched root, and the enforcement pass, whose breaches are
sent one at a time. Between any two of these steps the supervisor may watch,
unwatch, arm and disarm, a process may exit, and the system may give its pid
to another. The processes that hold one pid in turn are numbered from 1;
`process` fields say which of them an entry is about, which the code cannot
read.
-/

namespace Shep

namespace Limits

open Sweep (LambSnapshot)

/-! ## What is held -/

/-- The root pid watched for an id. -/
structure Watched where
  rootPid : ℕ
  process : ℕ
  deriving Repr, DecidableEq

/-- A watched root's CPU counter, and when it was read. `process` is the
latest one that had held the pid then, if the sample shows anything of the
pid. -/
structure Baseline where
  cpuMs : ℕ
  at_ : ℕ
  process : Option ℕ
  deriving Repr, DecidableEq

/-- The lambs of a watched root. -/
structure Lambs where
  snapshot : LambSnapshot
  process : ℕ

/-- `StatsState`, without the labels of lambs. -/
structure StatsState where
  watched : Std.ExtTreeMap ℕ Watched := ∅
  baselines : Std.ExtTreeMap ℕ Baseline := ∅
  lambSnapshots : Std.ExtTreeMap ℕ Lambs := ∅

/-- One sheep's armed enforcement. -/
structure Armed where
  rootPid : ℕ
  limit : ℕ
  process : ℕ
  deriving Repr, DecidableEq

/-- A sheep whose process tree exceeded its `max_memory`. `armed` is the
process the id was armed with, `process` the one that was sampled. -/
structure LimitBreach where
  id : ℕ
  rootPid : ℕ
  observed : ℕ
  limit : ℕ
  armed : ℕ
  process : ℕ
  deriving Repr, DecidableEq

/-! ## A sample -/

/-- One read of the table, the instants around it, and the latest process
that had held each pid. -/
structure Sample where
  table : List ProcessRss
  takenAt : ℕ
  now : ℕ
  holder : ℕ → ℕ

namespace Sample

variable (s : Sample)

def index : TreeIndex := .build s.table

/-- The table has `pid` as a process or as a parent. -/
def shows (pid : ℕ) : Bool := s.table.any fun row => row.pid == pid || row.parent == some pid

/-- What a baseline of `rootPid` records. -/
def baseline (rootPid : ℕ) : Baseline where
  cpuMs := s.index.cpuFrom rootPid
  at_ := s.now
  process := if s.shows rootPid then some (s.holder rootPid) else none

/-- What is below the shepherd. -/
def ours (shepherd : ℕ) : List ℕ := s.index.descendantsOf shepherd

/-- What a snapshot of `rootPid` records. -/
def lambs (rootPid : ℕ) : Lambs where
  snapshot := .new (s.index.descendantsOf rootPid) s.takenAt
  process := s.holder rootPid

end Sample

namespace StatsState

variable (stats : StatsState)

/-- `watch`. -/
def watch (id rootPid process : ℕ) : StatsState where
  watched := stats.watched.insert id ⟨rootPid, process⟩
  baselines := stats.baselines.erase rootPid
  lambSnapshots := stats.lambSnapshots.erase rootPid

/-- `unwatch`. -/
def unwatch (id : ℕ) : StatsState where
  watched := stats.watched.erase id
  baselines := stats.baselines
  lambSnapshots :=
    match stats.watched[id]? with
    | some entry => stats.lambSnapshots.erase entry.rootPid
    | none => stats.lambSnapshots

/-- `watched_pids`. -/
def watchedPids : List ℕ := stats.watched.toList.map fun entry => entry.2.rootPid

/-- The second half of `record_baseline`, over the pids its first half
read: the whole map is replaced. -/
def storeBaselines (s : Sample) (pids : List ℕ) : StatsState :=
  { stats with baselines := pids.foldl (fun fresh pid => fresh.insert pid (s.baseline pid)) ∅ }

/-- The second half of `record_lamb_snapshots`. -/
def storeLambs (s : Sample) (shepherd : ℕ) (pids : List ℕ) : StatsState :=
  { stats with
    lambSnapshots := (pids.filter fun pid => (s.ours shepherd).contains pid).foldl
      (fun fresh pid => fresh.insert pid (s.lambs pid)) ∅ }

end StatsState

/-- One entry of the enforcement pass. -/
def Sample.breach (s : Sample) (id : ℕ) (entry : Armed) : Option LimitBreach :=
  let observed := s.index.sumFrom entry.rootPid
  if observed > entry.limit then
    some ⟨id, entry.rootPid, observed, entry.limit, entry.process, s.holder entry.rootPid⟩
  else none

/-! ## The machine -/

/-- Where the polling task is in its tick. -/
inductive Tick where
  | sleeping
  | sampled (s : Sample)
  | watchedRead (s : Sample) (pids : List ℕ)
  | baselined (s : Sample)
  | lambsRead (s : Sample) (pids : List ℕ)
  | lambed (s : Sample)
  | sending (breached : List LimitBreach)

/-- The system, the supervisor's two maps, the polling task, and the
breaches sent and not yet received. -/
structure World where
  /-- the shepherd's own pid -/
  shepherd : ℕ
  /-- how many processes have held a pid so far -/
  holders : ℕ → ℕ := fun _ => 0
  /-- whether one holds it now -/
  running : ℕ → Bool := fun _ => false
  stats : StatsState := {}
  armed : Std.ExtTreeMap ℕ Armed := ∅
  tick : Tick := .sleeping
  sent : List LimitBreach := []

/-- What may happen. -/
inductive Event where
  /-- a process begins, on a pid nothing holds -/
  | fork (pid : ℕ)
  | exit (pid : ℕ)
  /-- the supervisor's calls, with the process it means -/
  | watch (id rootPid process : ℕ)
  | unwatch (id : ℕ)
  | arm (id rootPid limit process : ℕ)
  | disarm (id : ℕ)
  /-- the steps of a tick -/
  | sample (table : List ProcessRss) (takenAt now : ℕ)
  | readWatched
  | storeBaselines
  | readWatchedAgain
  | storeLambs
  | enforce
  | send
  /-- the supervisor takes a breach -/
  | receive

namespace World

variable (w : World)

/-- The entries of the enforcement pass, and what it finds. -/
def breaches (s : Sample) : List LimitBreach :=
  w.armed.toList.filterMap fun entry => s.breach entry.1 entry.2

/-- What the pass retains. -/
def retained (s : Sample) : Std.ExtTreeMap ℕ Armed :=
  w.armed.filter fun id entry => (s.breach id entry).isNone

/-- The next state, unless the event cannot occur. -/
def next : Event → Option World
  | .fork pid =>
    if w.running pid then none
    else some { w with
      holders := Function.update w.holders pid (w.holders pid + 1)
      running := Function.update w.running pid true }
  | .exit pid => some { w with running := Function.update w.running pid false }
  | .watch id rootPid process =>
    if process ≤ w.holders rootPid then some { w with stats := w.stats.watch id rootPid process }
    else none
  | .unwatch id => some { w with stats := w.stats.unwatch id }
  | .arm id rootPid limit process =>
    if process ≤ w.holders rootPid then
      some { w with armed := w.armed.insert id ⟨rootPid, limit, process⟩ }
    else none
  | .disarm id => some { w with armed := w.armed.erase id }
  | .sample table takenAt now =>
    match w.tick with
    | .sleeping => some { w with tick := .sampled ⟨table, takenAt, now, w.holders⟩ }
    | _ => none
  | .readWatched =>
    match w.tick with
    | .sampled s => some { w with tick := .watchedRead s w.stats.watchedPids }
    | _ => none
  | .storeBaselines =>
    match w.tick with
    | .watchedRead s pids =>
      some { w with stats := w.stats.storeBaselines s pids, tick := .baselined s }
    | _ => none
  | .readWatchedAgain =>
    match w.tick with
    | .baselined s => some { w with tick := .lambsRead s w.stats.watchedPids }
    | _ => none
  | .storeLambs =>
    match w.tick with
    | .lambsRead s pids =>
      some { w with stats := w.stats.storeLambs s w.shepherd pids, tick := .lambed s }
    | _ => none
  | .enforce =>
    match w.tick with
    | .lambed s => some { w with armed := w.retained s, tick := .sending (w.breaches s) }
    | _ => none
  | .send =>
    match w.tick with
    | .sending (breach :: rest) => some { w with sent := w.sent ++ [breach], tick := .sending rest }
    | .sending [] => some { w with tick := .sleeping }
    | _ => none
  | .receive =>
    match w.sent with
    | _ :: rest => some { w with sent := rest }
    | [] => none

/-- The breaches found and not yet received. -/
def reported : List LimitBreach :=
  w.sent ++ match w.tick with
    | .sending breached => breached
    | _ => []

end World

/-- A shepherd that watches nothing yet, on any machine. -/
def World.new (shepherd : ℕ) (holders : ℕ → ℕ) (running : ℕ → Bool) : World :=
  { shepherd, holders, running }

/-- One step. -/
def Step (w : World) (e : Event) (w' : World) : Prop := w.next e = some w'

end Limits

end Shep
