import Shep.Link.Helpers.Drain
import Shep.Link.Helpers.Parks

/-!
# Link — a frozen connection that is carried owes nothing

A connection the freeze returns is handed to the next image as a bare
socket: `OwesNothing` is what has to be true of it then, and
**`carried_owes_nothing`** when it is. Both sides park on a frame boundary
of their own, but the writer parks ahead of its queue, and the reader may
queue its last answer behind a writer that is parked already: an answer
queued when the second of them parks is lost with the image. Everything
else holds in every run, and answers stay in order through any number of
freezes and thaws.
-/

namespace Shep

namespace Link

open Framing

namespace Conn

/-- **What is true of a connection that can be carried as a bare socket**:
the bytes taken off it are whole frames, each was dispatched and its answer
completely written, and the topics are those the dog was told. -/
structure OwesNothing (l : Conn) (topics : Option (List String)) : Prop where
  whole : l.taken = (l.frames.map onWire).flatten
  answered : numbers l.fed = List.range l.frames.length
  written : l.sent = wireOf l.fed
  topics_eq : topics = told l.fed


/-- **What is true of the answers of any connection**: those fed to the
socket are the ones owed to the first frames, each once and in order, and
no other byte is written; and while the table is not frozen and neither
task has given up, serving answers every frame there is. -/
structure AnswersInOrder (l : Conn) : Prop where
  once : ∃ owed, numbers l.fed ++ owed = List.range l.frames.length
  written : l.sent ++ l.sink = wireOf l.fed
  resumes : l.frozen = false → (∀ unanswered, l.reader ≠ .ended unanswered) →
    (∀ lost, l.writer ≠ .gone lost) →
    ∃ l', l.Serves l' ∧ l'.frames = l.frames ∧ numbers l'.fed = List.range l.frames.length ∧
      l'.sent = wireOf l'.fed

variable {l : Conn}

theorem Answers.answersInOrder (h : l.Answers) : l.AnswersInOrder where
  once := by
    refine ⟨numbers (l.writer.inHand ++ l.queue) ++ l.pending, ?_⟩
    rw [← List.append_assoc, ← numbers_append, ← List.append_assoc]
    exact h.inOrder
  written := h.wire
  resumes := answers_all h

/-- A connection the freeze has returned owes nothing. -/
theorem Parks.owesNothing (h : l.Parks) (hstreams : l.Streams) (hanswers : l.Answers)
    (hrecorded : l.Recorded) {topics : Option (List String)} (hc : l.carried = some topics) :
    l.OwesNothing topics := by
  obtain ⟨-, htopics, hreader, hunframed, hwriter, hunqueued⟩ := h.carried topics hc
  have hhand : l.writer.inHand = [] ∧ l.writer.clear = true := by
    revert hwriter
    cases l.writer <;> simp [Writing.stays, Writing.inHand, Writing.clear]
  have howes : l.reader.owes = false ∧ l.reader.waiting = [] ∧ l.reader ≠ .ended true := by
    refine ⟨?_, ?_, ?_⟩
    · cases hr : l.reader with
      | ended unanswered =>
        rw [hr] at hreader
        cases unanswered with
        | false => rfl
        | true => cases hreader
      | delivered | greeting | recording | sending =>
        rw [hr] at hreader
        cases hreader
      | top | looking | polling | sleeping | draining | parking | parked | leaving => rfl
    · cases hr : l.reader with
      | sending out last =>
        rw [hr] at hreader
        cases hreader
      | _ => rfl
    · intro hr
      rw [hr] at hreader
      cases hreader
  have hsink := hanswers.flushed hhand.2
  have houts : l.outs = l.fed ++ l.queue := by simp [outs, hhand.1]
  have hnone : numbers l.queue = [] := List.filterMap_eq_nil_iff.2 hunqueued
  constructor
  case whole =>
    have hbytes := hstreams.bytes
    rwa [hunframed, List.append_nil] at hbytes
  case answered =>
    have hall := hanswers.inOrder
    rw [houts, numbers_append, hnone, pending, howes.1] at hall
    simpa using hall
  case written =>
    have hwire := hanswers.wire
    rwa [hsink, List.append_nil] at hwire
  case topics_eq =>
    rw [htopics, hrecorded.topics howes.2.2, howes.2.1, List.append_nil, houts]
    refine told_append fun out hout => ?_
    -- an answer would have a number
    have hnumber := hunqueued out hout
    cases out with
    | answer => cases hnumber
    | event => exact ⟨rfl, rfl⟩

end Conn

/-- **A carried connection owes nothing**, in every run in which the side
that parks second finds no answer queued; and in every run answers are
given once and in order. -/
theorem carried_owes_nothing {h : List (Conn × Event)} {l : Conn} (hr : Run Conn.Step {} h l)
    (hC : Meets Conn.Calm h) :
    (∀ topics, l.carried = some topics → l.OwesNothing topics) ∧ l.AnswersInOrder := by
  have hsound : l.Streams ∧ l.Answers ∧ l.Recorded ∧ l.Parks := by
    refine hr.invariant (P := fun l => l.Streams ∧ l.Answers ∧ l.Recorded ∧ l.Parks) hC ?_ ?_
    · refine ⟨⟨rfl, by simp, .inr (by simp [unframed])⟩, ⟨rfl, by simp, rfl, fun _ => rfl⟩,
        ⟨fun _ => rfl, by simp, fun _ out hout => ?_, trivial⟩,
        ⟨by simp [Reading.inPark], by simp, by simp, fun _ out hout => ?_, by simp⟩⟩
      · cases hout
      · cases hout
    · rintro l e l' ⟨hstreams, hanswers, hrecorded, hparks⟩ hcalm hstep
      exact ⟨hstreams.step hstep, hanswers.step hstep, hrecorded.step hstep,
        hparks.step hstreams hstep hcalm⟩
  obtain ⟨hstreams, hanswers, hrecorded, hparks⟩ := hsound
  exact ⟨fun topics hc => hparks.owesNothing hstreams hanswers hrecorded hc,
    hanswers.answersInOrder⟩

/-! ## Connections written out -/

namespace Conn

/-- The state an event leaves, where it can happen. -/
def next (l : Conn) (e : Event) : Conn := (l.step e).getD l

/-- An event that can happen. -/
def Ready (l : Conn) (e : Event) : Prop := (l.step e).isSome = true

instance (l : Conn) (e : Event) : Decidable (l.Ready e) := inferInstanceAs (Decidable (_ = true))

theorem Ready.step {l : Conn} {e : Event} (h : l.Ready e) : l.Step e (l.next e) := by
  obtain ⟨l', hl'⟩ := Option.isSome_iff_exists.1 h
  rw [next, Step, hl']
  rfl

end Conn

/-- A `Hello` comes in two chunks, and its answer is on record. -/
def hailed : List Event :=
  [.arrive (onWire [1]), .reader .next, .reader .look, .reader (.read 2), .reader .decode,
    .reader .pend, .reader .wake, .reader .look, .reader (.read 3), .reader .decode,
    .reader (.greet .welcome [2]), .reader .record]

/-- The two sides find the table frozen, and the freeze ends. -/
def halted : List Event :=
  [.writer .look, .writer .park, .reader .next, .reader .look, .reader .park, .copy]

/-- The answer is written before the table freezes. -/
def answeredThenFrozen : List Event :=
  hailed ++ [.reader .enqueue, .writer .look, .writer .receive, .writer .feed, .writer (.write 5),
    .writer .flush, .freeze] ++ halted

theorem carried_owes_nothing_answered :
    (drive Conn.next {} answeredThenFrozen).carried = some (some []) ∧
      (drive Conn.next {} answeredThenFrozen).OwesNothing (some []) := by
  have hready : Drives Conn.next (fun l e => l.Ready e ∧ l.Calm e) {} answeredThenFrozen := by
    decide +kernel
  have hcarried : (drive Conn.next {} answeredThenFrozen).carried = some (some []) := by
    decide +kernel
  exact ⟨hcarried, (carried_owes_nothing (hready.run fun _ _ h => h.1.step)
    (hready.meets fun _ _ h => h.2)).1 _ hcarried⟩

/-- The table freezes before the answer is queued. -/
def frozenThenAnswered : List Event := hailed ++ [.freeze, .reader .enqueue] ++ halted

/-- A connection is returned with the answer to its `Hello` in the queue. -/
theorem carried_owes_answer : ∃ (h : List (Conn × Event)) (l : Conn) (topics : Option (List String)),
    Run Conn.Step {} h l ∧ l.carried = some topics ∧ ¬ l.OwesNothing topics := by
  have hready : Drives Conn.next Conn.Ready {} frozenThenAnswered := by decide +kernel
  have hcarried : (drive Conn.next {} frozenThenAnswered).carried = some (some []) := by
    decide +kernel
  refine ⟨_, _, _, hready.run fun _ _ h => h.step, hcarried, fun howes => ?_⟩
  have hunanswered : numbers (drive Conn.next {} frozenThenAnswered).fed ≠
      List.range (drive Conn.next {} frozenThenAnswered).frames.length := by decide +kernel
  exact hunanswered howes.answered

end Link

end Shep
