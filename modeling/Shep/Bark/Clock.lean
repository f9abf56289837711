import Shep.Bark.Evaluations

/-!
# Bark — the clock the rules are stamped by

`clock.rs`, and the beats of `event_loop.rs` that read it: an event and a
reconciliation are each stamped by one reading, of a wall clock that may be
stepped either way or read before the epoch, and of a monotonic one.
Readings are in nanoseconds, and stamps the whole milliseconds of them in a
`u64`. **`prompt_iff`**: no alert is muted past its debounce exactly if the
wall clock, as it was last readable and carried on by the monotonic one,
moved forward by the debounce meanwhile. A clock that is put back an hour
mutes an alert for an hour (`muted_by_setback`).
-/

namespace Shep

namespace Bark

open Values

/-! ## The clock -/

/-- What one reading finds: the wall clock, unless it is before the epoch,
and the monotonic one. -/
structure Reading where
  wall : Option ℕ
  mono : ℕ
  deriving Repr, DecidableEq

/-- `as_millis() as u64`. -/
def wholeMs (nanos : ℕ) : ℕ := nanos / 1000000 % 2 ^ 64

/-- `u64::saturating_add`. -/
def saturatingAdd (a b : ℕ) : ℕ := min (a + b) (2 ^ 64 - 1)

/-- `NOTHING_REMEMBERED`. -/
def NOTHING_REMEMBERED : String :=
  "the system clock reads before the Unix epoch and no earlier reading is remembered; " ++
    "barks are stamped 0 until it recovers"

/-- `LAST_GOOD_FALLBACK`. -/
def LAST_GOOD_FALLBACK : String :=
  "the system clock reads before the Unix epoch; barks are stamped from the last good reading " ++
    "until it recovers"

/-- `CLOCK_RECOVERED`. -/
def CLOCK_RECOVERED : String :=
  "the system clock reads normally again; barks are stamped from it"

/-- `Clock`. -/
structure Clock where
  /-- The last stamp read off the wall clock, and the instant it was read
  at. -/
  lastGood : Option (ℕ × ℕ)
  failureReported : Bool
  deriving Repr, DecidableEq

namespace Clock

/-- `Clock::new`. -/
def new : Clock := ⟨none, false⟩

/-- `now_ms`: the stamp, and the line it reports. -/
def nowMs (c : Clock) (reading : Reading) : Clock × ℕ × Option String :=
  match reading.wall with
  | some elapsed =>
    let stamp := wholeMs elapsed
    (⟨some (stamp, reading.mono), false⟩, stamp,
      if c.failureReported then some CLOCK_RECOVERED else none)
  | none =>
    let stamp := match c.lastGood with
      | some (last, taken) => saturatingAdd last (wholeMs (reading.mono - taken))
      | none => 0
    ({ c with failureReported := true }, stamp,
      if c.failureReported then none
      else some (match c.lastGood with
        | some _ => LAST_GOOD_FALLBACK
        | none => NOTHING_REMEMBERED))

end Clock

/-- Where the wall clock stands at a reading: as it was last readable,
carried on by the monotonic clock. One that never was stands at zero. -/
def carried (earlier : List Reading) (reading : Reading) : ℕ :=
  match latest (fun r => r.wall.isSome) (earlier ++ [reading]) with
  | some good => saturatingAdd (wholeMs (good.wall.getD 0)) (wholeMs (reading.mono - good.mono))
  | none => 0

/-! ## The loop -/

/-- One beat of the loop that touches the rules. Names are read without a
stamp. -/
inductive Beat where
  | event (reading : Reading) (event : BusEvent)
  | reconcile (reading : Reading) (flock : List ProcessInfo)
  | learn (flock : List ProcessInfo)
  deriving Repr, DecidableEq

/-- The clock and the rules, with the readings taken so far. -/
structure Dog where
  clock : Clock
  rules : Rules
  readings : List Reading

/-- An evaluation, with the reading that stamped it and those before. -/
structure Timed where
  look : Look
  earlier : List Reading
  reading : Reading
  deriving Repr, DecidableEq

namespace Dog

/-- A call stamped by a reading. -/
def stamped (d : Dog) (reading : Reading) (call : Call) : Dog × List Timed :=
  let (clock, stamp, _) := d.clock.nowMs reading
  let (rules, looks) := d.rules.serve call stamp
  (⟨clock, rules, d.readings ++ [reading]⟩, looks.map fun look => ⟨look, d.readings, reading⟩)

/-- One beat. -/
def beat (d : Dog) : Beat → Dog × List Timed
  | .event reading event => d.stamped reading (.event event)
  | .reconcile reading flock => d.stamped reading (.poll flock)
  | .learn flock => ({ d with rules := d.rules.learn flock }, [])

/-- One beat after another. -/
def beats (d : Dog) (beats : List Beat) : Dog × List Timed := feed beat d beats

end Dog

/-- The evaluation fired the rule for the subject. -/
def Timed.firedFor (subject : String) (idx : ℕ) (k : Timed) : Bool := k.look.firedFor subject idx

/-- The rule held for the subject, its last firing being the debounce of
monotonic time ago. -/
structure Timed.Due (rules : List Rule) (before : List Timed) (k j : Timed) (rule : Rule) :
    Prop where
  known : rules[k.look.idx]? = some rule
  held : k.look.message.isSome = true
  last : latest (Timed.firedFor k.look.subject k.look.idx) before = some j
  elapsed : j.reading.mono + rule.debounce.millis.toNat * 1000000 ≤ k.reading.mono

/-- No alert is muted longer than its debounce. -/
def Prompt (rules : List Rule) (log : List Timed) : Prop :=
  Traced (fun before k => ∀ j rule, k.Due rules before j rule → k.look.firing.isSome = true) log

/-- Wherever one is due, the wall clock stands the debounce ahead of where
it stood at the last firing. -/
def Forward (rules : List Rule) (log : List Timed) : Prop :=
  Traced (fun before k => ∀ j rule, k.Due rules before j rule →
    rule.debounce.millis.toNat ≤ carried k.earlier k.reading - carried j.earlier j.reading) log

/-! ## The stamps -/

theorem wholeMs_lt (nanos : ℕ) : wholeMs nanos < 2 ^ 64 := Nat.mod_lt _ (by positivity)

/-- The clock remembers the last reading that was not before the epoch. -/
def Clock.Remembers (c : Clock) (readings : List Reading) : Prop :=
  c.lastGood = (latest (fun r => r.wall.isSome) readings).map fun good =>
    (wholeMs (good.wall.getD 0), good.mono)

/-- **The stamp is where the wall clock stands.** -/
theorem Clock.Remembers.nowMs {c : Clock} {readings : List Reading} (h : c.Remembers readings)
    (reading : Reading) : (c.nowMs reading).2.1 = carried readings reading ∧
      (c.nowMs reading).1.Remembers (readings ++ [reading]) := by
  unfold Clock.Remembers carried at *
  rw [latest_concat]
  unfold Clock.nowMs
  cases hwall : reading.wall with
  | some elapsed =>
    have hlt := wholeMs_lt elapsed
    have hzero : wholeMs 0 = 0 := rfl
    simp only [hwall, Option.isSome_some, if_true, Option.getD_some, Nat.sub_self, hzero,
      saturatingAdd, Nat.add_zero, Option.map_some, and_true]
    omega
  | none =>
    simp only [Option.isSome_none, Bool.false_eq_true, if_false]
    refine ⟨?_, h⟩
    rw [h]
    cases latest (fun r => r.wall.isSome) readings with
    | none => rfl
    | some good => rfl

/-! ## Runs of the loop -/

/-- The clock remembers its readings, the rules their evaluations, and each
of these was stamped where the wall clock stood. -/
structure Dog.Kept (rules : List Rule) (log : List Timed) (d : Dog) : Prop where
  clock : d.clock.Remembers d.readings
  record : Rules.Record rules (log.map Timed.look) d.rules
  stamped : ∀ t ∈ log, t.look.nowMs = carried t.earlier t.reading

namespace Dog.Kept

variable {rules : List Rule} {log : List Timed} {d : Dog}

theorem stampedCall (h : Kept rules log d) (reading : Reading) (call : Call) :
    Kept rules (log ++ (d.stamped reading call).2) (d.stamped reading call).1 := by
  obtain ⟨hstamp, hremembers⟩ := h.clock.nowMs reading
  have hserved := Rules.Served.serve h.record call (d.clock.nowMs reading).2.1
  refine ⟨hremembers, ?_, fun t ht => ?_⟩
  · have hrecord := hserved.record
    simpa [Dog.stamped, Function.comp_def] using hrecord
  · rcases List.mem_append.1 ht with ht | ht
    · exact h.stamped t ht
    · obtain ⟨look, hlook, rfl⟩ := List.mem_map.1 ht
      exact (hserved.stamped look hlook).trans hstamp

theorem beat (h : Kept rules log d) (b : Beat) :
    Kept rules (log ++ (d.beat b).2) (d.beat b).1 := by
  cases b with
  | event reading event => exact h.stampedCall reading (.event event)
  | reconcile reading flock => exact h.stampedCall reading (.poll flock)
  | learn flock =>
    refine ⟨h.clock, ?_, ?_⟩
    · simpa [Dog.beat] using h.record.learn flock
    · simpa [Dog.beat] using h.stamped

theorem beats (h : Kept rules log d) (beats : List Beat) :
    Kept rules (log ++ (d.beats beats).2) (d.beats beats).1 :=
  feed_rule (I := Kept rules) (fun _ _ b _ hd => hd.beat b) h

end Dog.Kept

/-- A rule that is due fires exactly if the stamps are its debounce
apart. -/
theorem Rules.Debounced.due_iff {rules : List Rule} {before : List Timed} {k j : Timed}
    {rule : Rule} (h : Rules.Debounced rules (before.map Timed.look) k.look)
    (hdue : k.Due rules before j rule) : k.look.firing.isSome = true ↔
      rule.debounce.millis.toNat ≤ k.look.nowMs - j.look.nowMs := by
  have hlast : (latest (Look.firedFor k.look.subject k.look.idx) (before.map Timed.look)).map
      Look.nowMs = some j.look.nowMs := by
    rw [latest_map]
    exact congrArg (fun t => (t.map Timed.look).map Look.nowMs) hdue.last
  rw [h.1, hlast]
  constructor
  · rintro ⟨-, rule', hrule', hready⟩
    obtain rfl := Option.some.inj (hdue.known.symm.trans hrule')
    simpa [ready] using hready
  · intro hready
    exact ⟨hdue.held, rule, hdue.known, by simpa [ready] using hready⟩

/-- The clock, after some readings. -/
def Clock.read (readings : List Reading) : Clock :=
  readings.foldl (fun c reading => (c.nowMs reading).1) .new

theorem Clock.remembers_read (readings : List Reading) :
    (Clock.read readings).Remembers readings := by
  induction readings using List.reverseRecOn with
  | nil => rfl
  | append_singleton readings reading ih =>
    unfold Clock.read
    rw [List.foldl_append]
    exact (ih.nowMs reading).2

/-- **No alert is muted past its debounce exactly if the wall clock moves
forward by it.** For every rule set the engine accepts, every clock that
has taken some readings before, and every run of beats. -/
theorem prompt_iff {regex : Compile} {rules : List Rule} {sinks : Std.ExtTreeMap String Sink}
    {r : Rules} (hnew : Rules.new regex rules sinks = .ok r) (readings : List Reading)
    (beats : List Beat) :
    Prompt rules (Dog.beats ⟨.read readings, r, readings⟩ beats).2 ↔
      Forward rules (Dog.beats ⟨.read readings, r, readings⟩ beats).2 := by
  have hkept : Dog.Kept rules [] ⟨.read readings, r, readings⟩ :=
    ⟨Clock.remembers_read readings, Rules.record_new hnew, by simp⟩
  have hrun := hkept.beats beats
  rw [List.nil_append] at hrun
  generalize (Dog.beats ⟨.read readings, r, readings⟩ beats).2 = log at hrun ⊢
  have hone : ∀ before k after, log = before ++ k :: after → ∀ j rule, k.Due rules before j rule →
      (k.look.firing.isSome = true ↔ rule.debounce.millis.toNat ≤
        carried k.earlier k.reading - carried j.earlier j.reading) := by
    intro before k after hsplit j rule hdue
    have hdebounced := hrun.record.traced (before.map Timed.look) k.look (after.map Timed.look)
      (by simp [hsplit])
    obtain ⟨b, a, hbefore, -⟩ := latest_eq_some.1 hdue.last
    rw [hdebounced.due_iff hdue, hrun.stamped k (by simp [hsplit]),
      hrun.stamped j (by simp [hsplit, hbefore])]
  constructor
  · intro h before k after hsplit j rule hdue
    exact (hone before k after hsplit j rule hdue).1 (h before k after hsplit j rule hdue)
  · intro h before k after hsplit j rule hdue
    exact (hone before k after hsplit j rule hdue).2 (h before k after hsplit j rule hdue)

/-! ## A clock put back -/

/-- One rule, five minutes. -/
def gaveUpOnly : List Rule := [⟨.gaveUp, ["ops"], ⟨300000⟩⟩]

/-- The engine built of it. -/
def gaveUpRules : Rules := ⟨gaveUpOnly, ∅, [], ∅⟩

theorem new_gaveUpOnly (regex : Compile) : Rules.new regex gaveUpOnly oneSink = .ok gaveUpRules :=
  rfl

/-- `web` goes down. -/
def webDown : BusEvent := .process .errored ⟨0, "web", .errored, 0, none, none⟩

/-- It goes down again ten minutes later. -/
def twiceDown : List Beat :=
  [.event ⟨some 10000000000000, 0⟩ webDown, .event ⟨some 10600000000000, 600000000000⟩ webDown]

theorem prompt_iff_twiceDown :
    Prompt gaveUpOnly (Dog.beats ⟨.read [], gaveUpRules, []⟩ twiceDown).2 ↔
      Forward gaveUpOnly (Dog.beats ⟨.read [], gaveUpRules, []⟩ twiceDown).2 :=
  prompt_iff (new_gaveUpOnly fun _ => .error "no patterns") [] twiceDown

/-- And the wall clock has been put back an hour meanwhile. -/
def putBack : List Beat :=
  [.event ⟨some 10000000000000, 0⟩ webDown, .event ⟨some 7000000000000, 600000000000⟩ webDown]

/-- **A clock put back mutes an alert.** Ten minutes after the last firing,
on a debounce of five, the second failure fires nothing. -/
theorem muted_by_setback : ∃ (regex : Compile) (r : Rules) (beats : List Beat),
    Rules.new regex gaveUpOnly oneSink = .ok r ∧
      ¬ Prompt gaveUpOnly (Dog.beats ⟨.read [], r, []⟩ beats).2 := by
  refine ⟨fun _ => .error "no patterns", gaveUpRules, putBack, new_gaveUpOnly _, fun h => ?_⟩
  have hlog : (Dog.beats ⟨.read [], gaveUpRules, []⟩ putBack).2 =
      [⟨⟨0, "web", 10000000, some (gaveUpMessage "web"),
          some ⟨10000000, "gave_up", "web", gaveUpMessage "web", ["ops"]⟩⟩, [],
          ⟨some 10000000000000, 0⟩⟩,
        ⟨⟨0, "web", 7000000, some (gaveUpMessage "web"), none⟩, [⟨some 10000000000000, 0⟩],
          ⟨some 7000000000000, 600000000000⟩⟩] := by
    decide +kernel
  rw [hlog] at h
  have hfires := h [_] _ [] rfl _ ⟨.gaveUp, ["ops"], ⟨300000⟩⟩
    ⟨rfl, rfl, rfl, by decide⟩
  cases hfires

end Bark

end Shep
