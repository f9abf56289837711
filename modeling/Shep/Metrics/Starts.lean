import Mathlib.Data.List.Infix
import Shep.Metrics.Otlp

/-!
# Metrics — the start stamp of a counter

A stamp is an export's clock less a sender's uptime, floored to a second:
the sender's true start, and on top of it what the truncation of the uptime
took off and how long after the listing the clock was read.
**`start_stamps`** says when two stamps of a sender are the same and when
the later is above: what is added never carries the start over a whole
second in the one export and not in the other, or does.
**`stamp_moved`** is a sender that has not restarted, with a stamp that has.
-/

namespace Shep

namespace Metrics

/-- An export: the listing and when it was measured, the samples, and the
clock that was read after it. All are nanoseconds of the one clock. -/
structure Export where
  flock : List ProcessInfo
  samples : List SampleFamily
  measured : ℕ
  now : ℕ
  exporterStart : ℕ
  deriving Repr, DecidableEq

namespace Export

/-- What the export writes for the counters of a sender. -/
def stamps (e : Export) (sender : List Label) : List ℕ :=
  (sampleMetrics e.samples e.flock e.exporterStart e.now).flatMap fun metric =>
    ((metric.sum.elim [] Sum.dataPoints).filter fun point =>
      sender.isPrefixOf point.attributes).filterMap DataPoint.startTimeUnixNano

/-- The export names the sender, by an instance that began at `started`: its
row has the whole milliseconds since then, and the clock is read no more
than a second after the listing was measured. -/
structure Names (e : Export) (sender : List Label) (started : ℕ) : Prop where
  row : ∃ info, e.flock.find? (fun info => senderLabels info = sender) = some info ∧
    info.uptimeMs = (e.measured - started) / 1000000
  begun : started ≤ e.measured
  read : e.measured ≤ e.now
  soon : e.now ≤ e.measured + NANOS_PER_SECOND
  fits : e.now < 2 ^ 64

/-- What an export adds to a start: the part of a millisecond that the
uptime leaves out, and the time between the listing and the clock. -/
def added (e : Export) (started : ℕ) : ℕ :=
  (e.measured - started) % 1000000 + (e.now - e.measured)

end Export

/-! ## The sender of a point -/

/-- Of two rows' labels that a point's labels begin with, the one is the
other: a sheep's and a dog's begin with another key. -/
theorem senderLabels_eq_of_prefix {info info' : ProcessInfo} {labels : List Label}
    (h : senderLabels info <+: labels) (h' : senderLabels info' <+: labels) :
    senderLabels info = senderLabels info' := by
  have hlength : (senderLabels info).length = (senderLabels info').length := by
    obtain ⟨rest, rfl⟩ := h
    obtain ⟨rest', heq⟩ := h'
    cases hdog : info.dog <;> cases hdog' : info'.dog <;> simp [senderLabels, hdog, hdog'] at heq ⊢
  exact (List.prefix_of_prefix_length_le h h' hlength.le).eq_of_length hlength

theorem senderStart_eq {flock : List ProcessInfo} {now : ℕ} {info : ProcessInfo}
    {sender labels : List Label}
    (hrow : flock.find? (fun info => senderLabels info = sender) = some info)
    (hfront : sender <+: labels) :
    senderStart labels (senderStarts flock now) = some (instanceStart info now) := by
  have hsame : (fun other : ProcessInfo => (senderLabels other).isPrefixOf labels) =
      fun other => decide (senderLabels other = sender) := by
    have hsender : senderLabels info = sender := by simpa using List.find?_some hrow
    funext other
    rw [Bool.eq_iff_iff, List.isPrefixOf_iff_prefix, decide_eq_true_eq]
    constructor
    · intro hother
      rw [← hsender]
      exact senderLabels_eq_of_prefix hother (hsender ▸ hfront)
    · rintro rfl
      exact hfront
  simp only [senderStart, senderStarts, List.find?_map, Function.comp_def, hsame, hrow]
  rfl

section CounterPoint

variable (starts : List SenderStart) (exporterStart now : ℕ) (name : Text) (point : SamplePoint)

theorem counterPoint_attributes :
    (counterPoint starts exporterStart now name point).attributes = point.labels := by
  unfold counterPoint
  split <;> rfl

theorem counterPoint_start :
    (counterPoint starts exporterStart now name point).startTimeUnixNano =
      some ((senderStart point.labels starts).getD exporterStart) := by
  unfold counterPoint
  split <;> rfl

end CounterPoint

theorem exists_of_start {samples : List SampleFamily} {flock : List ProcessInfo}
    {exporterStart now : ℕ} {metric : Metric} {point : DataPoint}
    (hmetric : metric ∈ sampleMetrics samples flock exporterStart now)
    (hpoint : point ∈ metric.sum.elim [] Sum.dataPoints) :
    ∃ name sample, point = counterPoint (senderStarts flock now) exporterStart now name sample := by
  obtain ⟨family, -, hfamily⟩ := List.mem_filterMap.1 hmetric
  cases hkind : family.kind with
  | gauge =>
    simp only [hkind, gauge, Option.ite_none_left_eq_some, Option.some.injEq] at hfamily
    rw [← hfamily.2] at hpoint
    cases hpoint
  | counter =>
    simp only [hkind, cumulativeSum, Option.ite_none_left_eq_some, Option.some.injEq] at hfamily
    rw [← hfamily.2, Option.elim_some] at hpoint
    obtain ⟨sample, -, rfl⟩ := List.mem_map.1 hpoint
    exact ⟨family.name, sample, rfl⟩

theorem mem_stamps {e : Export} {sender : List Label} {info : ProcessInfo} {stamp : ℕ}
    (hrow : e.flock.find? (fun info => senderLabels info = sender) = some info)
    (h : stamp ∈ e.stamps sender) : stamp = instanceStart info e.now := by
  obtain ⟨metric, hmetric, hstamp⟩ := List.mem_flatMap.1 h
  obtain ⟨point, hpoint, hstart⟩ := List.mem_filterMap.1 hstamp
  obtain ⟨hpoint, hfront⟩ := List.mem_filter.1 hpoint
  obtain ⟨name, sample, rfl⟩ := exists_of_start hmetric hpoint
  rw [counterPoint_attributes, List.isPrefixOf_iff_prefix] at hfront
  rw [counterPoint_start, senderStart_eq hrow hfront, Option.getD_some] at hstart
  exact (Option.some.inj hstart).symm

/-! ## The stamp of a start -/

theorem instanceStart_eq {e : Export} {sender : List Label} {started : ℕ} {info : ProcessInfo}
    (h : e.Names sender started) (hup : info.uptimeMs = (e.measured - started) / 1000000) :
    instanceStart info e.now =
      (started + e.added started) / NANOS_PER_SECOND * NANOS_PER_SECOND := by
  have hbegun := h.begun
  have hread := h.read
  have hfits := h.fits
  have hwhole : info.uptimeMs * 1000000 + (e.measured - started) % 1000000 =
      e.measured - started := by rw [hup]; exact Nat.div_add_mod' _ _
  have hroom : info.uptimeMs * 1000000 ≤ 2 ^ 64 - 1 := by omega
  have hmul : saturatingMul info.uptimeMs 1000000 = info.uptimeMs * 1000000 := by
    rw [saturatingMul, Nat.min_eq_left hroom]
  have hstart : e.now - info.uptimeMs * 1000000 = started + e.added started := by
    rw [Export.added]
    omega
  rw [instanceStart, hmul, hstart]

theorem stamp_eq {e : Export} {sender : List Label} {started stamp : ℕ}
    (h : e.Names sender started) (hstamp : stamp ∈ e.stamps sender) :
    stamp = (started + e.added started) / NANOS_PER_SECOND * NANOS_PER_SECOND := by
  obtain ⟨info, hrow, hup⟩ := h.row
  rw [mem_stamps hrow hstamp, instanceStart_eq h hup]

theorem floor_eq_iff {d : ℕ} (hd : 0 < d) (x y : ℕ) :
    x / d * d = y / d * d ↔ ∀ k, k * d ≤ x ↔ k * d ≤ y := by
  rw [Nat.mul_left_inj (Nat.pos_iff_ne_zero.1 hd)]
  constructor
  · intro h k
    rw [← Nat.le_div_iff_mul_le hd, ← Nat.le_div_iff_mul_le hd, h]
  · intro h
    refine Nat.le_antisymm ?_ ?_
    · exact (Nat.le_div_iff_mul_le hd).2 ((h _).1 (Nat.div_mul_le_self x d))
    · exact (Nat.le_div_iff_mul_le hd).2 ((h _).2 (Nat.div_mul_le_self y d))

theorem floor_lt_iff {d : ℕ} (hd : 0 < d) (x y : ℕ) :
    x / d * d < y / d * d ↔ ∃ k, x < k * d ∧ k * d ≤ y := by
  rw [Nat.mul_lt_mul_right hd]
  constructor
  · intro h
    exact ⟨y / d, (Nat.div_lt_iff_lt_mul hd).1 h, Nat.div_mul_le_self y d⟩
  · rintro ⟨k, hx, hy⟩
    exact Nat.lt_of_lt_of_le ((Nat.div_lt_iff_lt_mul hd).2 hx) ((Nat.le_div_iff_mul_le hd).2 hy)

/-- **When a stamp moves.** Of one instance two stamps are the same if and
only if every whole second is behind its start, with what the export adds,
in both exports or in neither; and the stamp of one that replaced it is
later if and only if a whole second lies in between. -/
theorem start_stamps {e e' : Export} {sender : List Label} {started started' stamp stamp' : ℕ}
    (h : e.Names sender started) (h' : e'.Names sender started')
    (hstamp : stamp ∈ e.stamps sender) (hstamp' : stamp' ∈ e'.stamps sender) :
    (started = started' → (stamp = stamp' ↔
      ∀ k, k * NANOS_PER_SECOND ≤ started + e.added started ↔
        k * NANOS_PER_SECOND ≤ started' + e'.added started')) ∧
    (e.now < started' → (stamp < stamp' ↔
      ∃ k, started + e.added started < k * NANOS_PER_SECOND ∧
        k * NANOS_PER_SECOND ≤ started' + e'.added started')) := by
  have hpos : 0 < NANOS_PER_SECOND := by decide
  rw [stamp_eq h hstamp, stamp_eq h' hstamp']
  exact ⟨fun _ => floor_eq_iff hpos _ _, fun _ => floor_lt_iff hpos _ _⟩

/-! ## A sheep that stays up -/

/-- When it began: half a millisecond before a whole second. -/
def began : ℕ := 1700000000999500000

/-- Its row, at an uptime. -/
def webUp (uptimeMs : ℕ) : ProcessInfo :=
  ⟨3, "web".toList, .online, 0, uptimeMs, some "backend".toList, none, none, none, none⟩

def webSender : List Label :=
  [("sheep".toList, "web".toList), ("id".toList, "3".toList), ("fold".toList, "backend".toList)]

/-- A counter it sends. -/
def requests : SampleFamily :=
  ⟨"requests_total".toList, none, .counter, [⟨webSender, ⟨false, 1023, 0⟩⟩]⟩

/-- Measured ten seconds after it began, to the nanosecond. -/
def atTen : Export := ⟨[webUp 10000], [requests], began + 10000000000, began + 10000000000, 0⟩

/-- Measured ten seconds later and seven tenths of a millisecond. -/
def pastTwenty : Export := ⟨[webUp 20000], [requests], began + 20000700000, began + 20000700000, 0⟩

theorem atTen_names : atTen.Names webSender began where
  row := ⟨webUp 10000, by decide +kernel, by decide +kernel⟩
  begun := by decide +kernel
  read := by decide +kernel
  soon := by decide +kernel
  fits := by decide +kernel

theorem pastTwenty_names : pastTwenty.Names webSender began where
  row := ⟨webUp 20000, by decide +kernel, by decide +kernel⟩
  begun := by decide +kernel
  read := by decide +kernel
  soon := by decide +kernel
  fits := by decide +kernel

theorem atTen_stamps : atTen.stamps webSender = [1700000000000000000] := by decide +kernel

theorem pastTwenty_stamps : pastTwenty.stamps webSender = [1700000001000000000] := by decide +kernel

/-- It has not restarted, and its stamp has moved by a second. -/
theorem stamp_moved : atTen.Names webSender began ∧ pastTwenty.Names webSender began ∧
    ¬ ∀ stamp ∈ atTen.stamps webSender, ∀ stamp' ∈ pastTwenty.stamps webSender, stamp = stamp' := by
  refine ⟨atTen_names, pastTwenty_names, ?_⟩
  rw [atTen_stamps, pastTwenty_stamps]
  decide

/-- A whole second is behind its start in the one export only. -/
theorem start_stamps_pastTwenty :
    ¬ ∀ k, k * NANOS_PER_SECOND ≤ began + atTen.added began ↔
      k * NANOS_PER_SECOND ≤ began + pastTwenty.added began := by
  have hstamp : (1700000000000000000 : ℕ) ∈ atTen.stamps webSender := by
    rw [atTen_stamps]
    exact List.mem_singleton_self _
  have hstamp' : (1700000001000000000 : ℕ) ∈ pastTwenty.stamps webSender := by
    rw [pastTwenty_stamps]
    exact List.mem_singleton_self _
  have hiff := (start_stamps atTen_names pastTwenty_names hstamp hstamp').1 rfl
  exact fun hall => absurd (hiff.2 hall) (by decide)

end Metrics

end Shep
