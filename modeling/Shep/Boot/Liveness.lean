import Shep.Boot.Helpers.Claims
import Shep.Boot.Helpers.Moments

/-!
# Boot — one shepherd a home

`acquire` opens the pidfile and locks what it opened, and the teardown
unlinks the pidfile before it lets the lock go: a boot that opened the file
before the unlink is granted the lock of a file no path names, next to a
boot that created the path anew. **`one_shepherd`** is that this is the only
way: as long as every lock a boot takes is on the file the path still names,
at most one process serves the home, and no step of another unlinks its
files.
-/

namespace Shep

namespace Boot

namespace Home

/-- A process has the home's listener open: it has bound, or inherited, and
its teardown has not begun. -/
def Serves (s : Home) (p : Pid) : Prop := (s.stage p).listener.isSome = true

instance (s : Home) (p : Pid) : Decidable (s.Serves p) := inferInstanceAs (Decidable (_ = true))

/-- A step leaves a process's socket file and pidfile in place. -/
def Spares (s : Home) (q : Pid) (s' : Home) : Prop :=
  (∀ l, (s.stage q).listener = some l → s.socket = some l → s'.socket = some l) ∧
    ∀ i, (s.stage q).lock = some i → s.pidfile = some i → s'.pidfile = some i

/-- **One shepherd a home**: at most one process serves it, and no step of
another process unlinks its files. -/
structure OneShepherd (s : Home) : Prop where
  unique : ∀ p q, s.Serves p → s.Serves q → p = q
  spared : ∀ e s', s.Step e s' → ∀ q, q ≠ e.pid → s.Serves q → s.Spares q s'

variable {s : Home}

theorem Serves.holds {p : Pid} (h : s.Serves p) : ∃ i, (s.stage p).holds = some i := by
  obtain ⟨l, hl⟩ := Option.isSome_iff_exists.1 h
  cases hp : s.stage p with
  | bound i l | truncated i l | serving i l => exact ⟨i, rfl⟩
  | _ => rw [hp] at hl; cases hl

theorem Kept.oneShepherd (h : s.Kept) : s.OneShepherd where
  unique p q hp hq := by
    obtain ⟨i, hi⟩ := hp.holds
    obtain ⟨j, hj⟩ := hq.holds
    exact h.unique hi hj
  spared e s' hstep q hq hserves := by
    obtain ⟨j, hj⟩ := hserves.holds
    have hbystander : (s.stage e.pid).holds = none := by
      cases hi : (s.stage e.pid).holds with
      | none => rfl
      | some i => exact absurd (h.unique hj hi) hq
    refine ⟨fun l _ hsocket => ?_, fun i _ hpidfile => ?_⟩
    · rw [(step_touches hstep).socket hbystander, hsocket]
    · cases step_claims hstep with
      | stays _ _ _ hsame | takes _ _ _ _ _ _ _ hsame | drops _ _ _ _ hsame => rw [hsame, hpidfile]
      | creates _ _ hnone =>
        rw [hnone] at hpidfile
        cases hpidfile
      | unnames i hunbound =>
        rw [hunbound] at hbystander
        cases hbystander

theorem kept_init : Kept {} :=
  ⟨fun _ _ => by simp [Stage.lock], fun _ _ h => nomatch h⟩

end Home

/-- **One shepherd a home**, in every run in which each lock a boot takes is
on the file the pidfile path still names. -/
theorem one_shepherd {h : List (Home × Event)} {s : Home} (hr : Run Home.Step {} h s)
    (hC : Meets Home.Current h) : s.OneShepherd := by
  have hkept : s.Kept := hr.invariant hC Home.kept_init fun _ _ _ hkept hcurrent hstep =>
    hkept.step hcurrent hstep
  exact hkept.oneShepherd

/-! ## Homes written out -/

namespace Home

/-- The state a step leaves, where it can be taken. -/
def next (s : Home) (e : Event) : Home := (s.step e).getD s

/-- A step that can be taken. -/
def Ready (s : Home) (e : Event) : Prop := (s.step e).isSome = true

instance (s : Home) (e : Event) : Decidable (s.Ready e) := inferInstanceAs (Decidable (_ = true))

theorem Ready.step {s : Home} {e : Event} (h : s.Ready e) : s.Step e (s.next e) := by
  obtain ⟨s', hs'⟩ := Option.isSome_iff_exists.1 h
  rw [next, Step, hs']
  rfl

end Home

/-- Steps of one process in a row. -/
def steps (p : Pid) (acts : List Act) : List Event := acts.map (Event.mk p)

/-- A boot over an empty socket path. -/
def booting : List Act := [.openPidfile .boot, .flock, .bind, .setLen, .write]

/-- What `run` does after its server. -/
def tearingDown : List Act := [.stop, .unlinkSocket, .unlinkPidfile, .drop]

/-- A shepherd crashes, the next recovers its socket, hands over and tears
down, and a third takes the home. -/
def succession : List Event :=
  steps 1 booting ++ [⟨1, .crash⟩] ++
    steps 2 [.openPidfile .boot, .flock, .bind, .probe, .removeStale, .bindAgain, .setLen, .write,
      .handOver, .setLen, .write] ++
    steps 2 tearingDown ++ steps 3 booting

theorem one_shepherd_succession :
    (drive Home.next {} succession).Serves 3 ∧ (drive Home.next {} succession).OneShepherd := by
  have hready : Drives Home.next (fun s e => s.Ready e ∧ s.Current e) {} succession := by
    decide +kernel
  exact ⟨by decide +kernel, one_shepherd (hready.run fun _ _ h => h.1.step)
    (hready.meets fun _ _ h => h.2)⟩

/-- A second boot opens the pidfile before the first unlinks it, and is
granted its lock afterwards. -/
def orphaned : List Event :=
  steps 1 booting ++ [⟨2, .openPidfile .boot⟩] ++ steps 1 tearingDown ++
    steps 2 [.flock, .bind, .setLen, .write]

/-- It begins to tear down, and a third boots on a pidfile of its own. -/
def trespassing : List Event := orphaned ++ steps 2 [.stop, .unlinkSocket] ++ steps 3 booting

/-- It crashes, and two more boots, each with a lock of its own, find the
socket it left: the second removes the listener of the first. -/
def doubled : List Event :=
  steps 1 booting ++ [⟨2, .openPidfile .boot⟩, ⟨3, .openPidfile .boot⟩] ++ steps 1 tearingDown ++
    steps 2 [.flock, .bind, .setLen, .write, .crash] ++
    steps 3 [.flock, .bind, .probe] ++ steps 4 [.openPidfile .boot, .flock, .bind, .probe] ++
    steps 3 [.removeStale, .bindAgain, .setLen, .write] ++
    steps 4 [.removeStale, .bindAgain, .setLen, .write]

/-- Two processes serve one home; and in another run a teardown unlinks the
pidfile of a process that serves. -/
theorem two_shepherds :
    (∃ (h : List (Home × Event)) (s : Home), Run Home.Step {} h s ∧
      s.stage 3 = .serving 0 2 ∧ s.stage 4 = .serving 1 3) ∧
    ∃ (h : List (Home × Event)) (s : Home), Run Home.Step {} h s ∧
      s.stage 3 = .serving 1 2 ∧ s.pidfile = some 1 ∧
      ∃ s', s.Step ⟨2, .unlinkPidfile⟩ s' ∧ s'.stage 3 = .serving 1 2 ∧ s'.pidfile = none := by
  have hdoubled : Drives Home.next Home.Ready {} doubled := by decide +kernel
  have htrespassing : Drives Home.next Home.Ready {} trespassing := by decide +kernel
  have hunlinks : (drive Home.next {} trespassing).Ready ⟨2, .unlinkPidfile⟩ := by decide +kernel
  constructor
  · refine ⟨_, _, hdoubled.run fun _ _ h => h.step, ?_, ?_⟩
    · decide +kernel
    · decide +kernel
  · refine ⟨_, _, htrespassing.run fun _ _ h => h.step, ?_, ?_, _, hunlinks.step, ?_, ?_⟩
    · decide +kernel
    · decide +kernel
    · decide +kernel
    · decide +kernel

end Boot

end Shep

/-!
## What a liveness call may say

`daemon_liveness` takes the lock to learn that nobody has it, and reads the
pidfile when somebody does. **`liveness_honest`** is when its answers, and
`acquire`'s refusal of a boot, say what was so at some moment of the call: a
lock is not tried while another liveness call holds it, a pid on record is
its holder's own, and no boot holds the home by a file the path has left. A
boot does not clear the pid a crashed shepherd left until it records its
own, so the second of these can fail.
-/

namespace Shep

namespace Boot

open Home

/-- **An answer is honest** when some moment of the call bears it out. -/
def Answer.Honest (moments : List Home) : Answer → Prop
  | .found .absent => Free moments
  | .found (.running p) => HeldBy moments p
  | .found .booting => ∃ q, HeldBy moments q
  | .alreadyRunning _ => ∃ q, HeldBy moments q

/-- A boot is refused the lock by a process that has it for a boot of its
own, not by a liveness call. -/
def Home.RefusesFairly (s : Home) (e : Event) : Prop :=
  e.act = .flock → ∀ i, s.stage e.pid = .opened .boot i → ∀ q, s.flock i = some q →
    (s.stage q).lock = some i ∧ s.stage q ≠ .asking i

variable {h : List (Home × Event)} {s : Home}

theorem watched_init : Watched [] {} where
  kept := kept_init
  numbered := by
    refine ⟨?_, ?_, ?_, ?_, fun _ _ => rfl⟩ <;> simp [Stage.lock]
  known _ := trivial

theorem watched_run (hr : Run Home.Step {} h s) (hC : Meets Home.Plain h) : Watched h s := by
  induction hr with
  | nil => exact watched_init
  | snoc _ hstep ih => exact (ih hC.init).step hC.last hstep

/-- What a call is answered is what it has seen. -/
theorem Home.Watched.honest (hw : Watched h s) {e : Event} {a : Answer}
    (ha : s.answer e = some a) : a.Honest (since (Event.Begins e.pid) h s) := by
  have hknown := hw.known e.pid
  unfold Home.answer at ha
  split at ha
  case h_1 i hact hp =>
    cases ha
    rw [hp] at hknown
    exact hknown
  case h_2 call hact hp =>
    rw [hp] at hknown
    split at ha
    · cases ha
      cases call <;> exact hknown.1
    · cases ha
  case h_3 call i hact hp =>
    cases ha
    rw [hp] at hknown
    cases call with
    | boot => exact hknown.1
    | liveness =>
      cases hr : s.contents i with
      | none => exact hknown.1
      | some r => exact hknown.2 rfl r hr
  case h_4 => cases ha

/-- **Liveness is honest**, in every run in which no lock is tried while a
liveness call has it, none by a liveness call next to a pid its holder did
not record, and each lock a boot takes is on the file the path still
names. -/
theorem liveness_honest (hr : Run Home.Step {} h s) (hC : Meets Home.Plain h) :
    (∀ e a, s.answer e = some a → a.Honest (since (Event.Begins e.pid) h s)) ∧
      ∀ e, s.Plain e → s.RefusesFairly e := by
  have hw := watched_run hr hC
  refine ⟨fun e a ha => hw.honest ha, fun e hplain hact i hopened q hq => ⟨?_, ?_⟩⟩
  · exact (hw.kept.locked q i).2 hq
  · exact hplain.boot hact i (by rw [hopened]; rfl) q hq

/-! ## Calls written out -/

/-- A liveness call that is refused the lock, up to its answer. -/
def refusedCall : List Act := [.openPidfile .liveness, .flock, .openToRead]

/-- A shepherd is asked for while it serves. -/
def askedWhileServing : List Event := steps 1 booting ++ steps 2 refusedCall

theorem liveness_honest_serving :
    (drive Home.next {} askedWhileServing).answer ⟨2, .read⟩ = some (.found (.running 1)) ∧
      HeldBy (since (Event.Begins 2) (logged Home.next {} askedWhileServing)
        (drive Home.next {} askedWhileServing)) 1 := by
  have hready : Drives Home.next (fun s e => s.Ready e ∧ s.Plain e) {} askedWhileServing := by
    decide +kernel
  have hanswer : (drive Home.next {} askedWhileServing).answer ⟨2, .read⟩ =
      some (.found (.running 1)) := by decide +kernel
  exact ⟨hanswer, (liveness_honest (hready.run fun _ _ h => h.1.step)
    (hready.meets fun _ _ h => h.2)).1 _ _ hanswer⟩

/-- A shepherd crashes, and is asked for while the next one boots. -/
def askedWhileBooting : List Event :=
  steps 1 (booting ++ [.crash]) ++ steps 2 [.openPidfile .boot, .flock] ++ steps 3 refusedCall

/-- A boot over a home nobody holds, which is being asked about. -/
def bootedWhileAsked : List Event :=
  steps 1 [.openPidfile .liveness, .flock] ++ steps 2 [.openPidfile .boot, .flock, .openToRead]

/-- `Running` of a process that was dead throughout the call; and a boot
refused while only a liveness call had the lock. -/
theorem liveness_dishonest :
    (∃ (h : List (Home × Event)) (s : Home), Run Home.Step {} h s ∧
      s.answer ⟨3, .read⟩ = some (.found (.running 1)) ∧
      ∀ m ∈ since (Event.Begins 3) h s, ¬ m.Holds 1) ∧
    ∃ (h : List (Home × Event)) (s : Home), Run Home.Step {} h s ∧
      s.answer ⟨2, .read⟩ = some (.alreadyRunning none) ∧
      ∀ m ∈ since (Event.Begins 2) h s, m.stage 1 = .asking 0 ∧ m.flock 0 = some 1 := by
  have hstale : Drives Home.next Home.Ready {} askedWhileBooting := by decide +kernel
  have hbooted : Drives Home.next Home.Ready {} bootedWhileAsked := by decide +kernel
  refine ⟨⟨_, _, hstale.run fun _ _ h => h.step, ?_, ?_⟩,
    ⟨_, _, hbooted.run fun _ _ h => h.step, ?_, ?_⟩⟩
  all_goals decide +kernel

end Boot

end Shep
