import Shep.Link.Helpers.Sound

/-!
# Link — the parking of the two sides

`Parks` is what a freeze can rely on: a side marked as parked has been at a
frame boundary since, and a connection the freeze has returned stays as it
was found until the thaw. A side that resumes after a thaw asks about the
table again before it touches the socket or the queue, so a freeze that
finds its mark not yet taken back finds it as good as parked. `Calm` is
asked of the steps that park.
-/

namespace Shep

namespace Link

open Framing

/-- Whether the reader takes nothing off the socket while the table stays
frozen. -/
def Reading.stays : Reading → Bool
  | .top | .looking | .parking | .parked | .leaving | .ended false => true
  | _ => false

/-- Whether the writer takes nothing off the queue while the table stays
frozen. -/
def Writing.stays : Writing → Bool
  | .looking | .parking | .parked | .leaving => true
  | _ => false

/-- Whether the reader is in `park`, where it was at a frame boundary. -/
def Reading.inPark : Reading → Bool
  | .parking | .parked | .leaving => true
  | _ => false

theorem Reading.inPark_of_busy {reader : Reading} (h : reader.stays = false) :
    reader.inPark = false ∧ reader ≠ .ended false := by
  constructor
  · cases reader <;> first | rfl | cases h
  · rintro rfl
    cases h

namespace Conn

/-- No answer waits in the queue. -/
def Unqueued (l : Conn) : Prop := ∀ out ∈ l.queue, out.number = none

/-- Whether an event parks one side beside the other, parked already. -/
def parksSecond (l : Conn) : Event → Bool
  | .reader .park => l.row.writerParked
  | .writer .park => l.row.readerParked
  | _ => false

/-- **When a park leaves nothing behind**: the side that parks second finds
no answer queued. -/
def Calm (l : Conn) (e : Event) : Prop := l.parksSecond e = true → l.Unqueued

instance (l : Conn) : Decidable l.Unqueued :=
  inferInstanceAs (Decidable (∀ out ∈ l.queue, out.number = none))

instance (l : Conn) (e : Event) : Decidable (l.Calm e) :=
  inferInstanceAs (Decidable (_ → l.Unqueued))

/-- The parking of the two sides. -/
structure Parks (l : Conn) : Prop where
  boundary : l.reader.inPark = true → unframed l.awaited l.buffer = []
  reader : l.row.readerParked = true → (l.reader.inPark = true ∨ l.reader = .ended false) ∧
    l.reader ≠ .parking ∧ unframed l.awaited l.buffer = []
  writer : l.row.writerParked = true → l.writer = .parked ∨ l.writer = .leaving
  both : l.row.parked = true → l.Unqueued
  carried : ∀ topics, l.carried = some topics → l.frozen = true ∧ topics = l.row.topics ∧
    l.reader.stays = true ∧ unframed l.awaited l.buffer = [] ∧ l.writer.stays = true ∧ l.Unqueued

variable {l l' : Conn}

/-- A reader that is not parked, on a connection no freeze has returned,
goes on as it likes. -/
theorem Parks.away (h : l.Parks) (hparked : l.row.readerParked = false)
    (hcarried : ∀ topics, l.carried ≠ some topics) (hpark : l'.reader.inPark = false)
    (hframe : l'.carried = l.carried ∧ l'.writer = l.writer ∧
      l'.row.writerParked = l.row.writerParked)
    (hrow : l'.row.readerParked = l.row.readerParked) : l'.Parks := by
  rw [hparked] at hrow
  refine ⟨fun hin => ?_, fun hp => ?_, ?_, fun hp => ?_, fun topics hc => ?_⟩
  · rw [hpark] at hin
    cases hin
  · rw [hrow] at hp
    cases hp
  · rw [hframe.2.1, hframe.2.2]
    exact h.writer
  · rw [Row.parked, hrow] at hp
    cases hp
  · rw [hframe.1] at hc
    exact absurd hc (hcarried topics)

/-- A reader that is neither in `park` nor has given up there is not marked
as parked. -/
theorem Parks.unparked (h : l.Parks) (hin : l.reader.inPark = false)
    (hended : l.reader ≠ .ended false) : l.row.readerParked = false := by
  cases hp : l.row.readerParked with
  | false => rfl
  | true =>
    rcases (h.reader hp).1 with hin' | hended'
    · rw [hin] at hin'
      cases hin'
    · exact absurd hended' hended

theorem Parks.settle (h : l.Parks) (reader : Reading)
    (hstays : reader.stays = true) (hne : reader ≠ .parking ∨ l.row.readerParked = false)
    (hin : l.row.readerParked = true → reader.inPark = true ∨ reader = .ended false)
    (hbound : reader.inPark = true → unframed l.awaited l.buffer = []) :
    Parks { l with reader := reader } := by
  refine ⟨hbound, fun hp => ⟨hin hp, ?_, (h.reader hp).2.2⟩, h.writer, h.both, fun topics hc => ?_⟩
  · rcases hne with hne | hne
    · exact hne
    · rw [show l.row.readerParked = true from hp] at hne
      cases hne
  · obtain ⟨hfrozen, htopics, -, hunframed, hwriter, hunqueued⟩ := h.carried topics hc
    exact ⟨hfrozen, htopics, hstays, hunframed, hwriter, hunqueued⟩

/-- Outside the freeze's own steps the reader is busy, or it gives up in
`park` waiting for a `Hello`. -/
theorem readerStep_busy {e : ReaderEvent} (hs : l.readerStep e = some l')
    (he : e ≠ .next ∧ e ≠ .look ∧ e ≠ .park ∧ e ≠ .leave ∧ e ≠ .resume) :
    l.reader.stays = false ∧ l'.reader.inPark = false ∧
        l'.row.readerParked = l.row.readerParked ∨
      l.reader = .parked ∧ l' = { l with reader := .ended false } := by
  have hdecode : l.reader.inPark = false → l.decodeFrame.reader.inPark = false ∧
      l.decodeFrame.row.readerParked = l.row.readerParked := by
    intro hin
    unfold decodeFrame
    split
    · exact ⟨rfl, rfl⟩
    · dsimp only
      split
      · exact ⟨rfl, rfl⟩
      · exact ⟨hin, rfl⟩
  unfold Conn.readerStep at hs
  split at hs
  all_goals try dsimp only at hs
  all_goals try split at hs
  all_goals try split at hs
  all_goals try cases hs
  all_goals try split
  all_goals simp_all [Reading.stays, Reading.inPark, readChunk]

theorem Parks.readerStep (h : l.Parks) (hstreams : l.Streams) {e : ReaderEvent}
    (hs : l.readerStep e = some l') (hcalm : l.Calm (.reader e)) : l'.Parks := by
  have hframe := readerStep_frame hs
  cases e with
  | next =>
    cases hr : l.reader <;> simp only [Conn.readerStep, hr, reduceCtorEq] at hs
    cases hs
    have hparked := h.unparked (by rw [hr]; rfl) (by simp [hr])
    have hholding := hstreams.holding_iff (.inl (by rw [hr]; rfl))
    by_cases hheld : l.holding = true
    · rw [if_pos hheld]
      refine h.away hparked (fun topics hc => ?_) rfl ⟨rfl, rfl, rfl⟩ rfl
      exact hholding.1 hheld (h.carried topics hc).2.2.2.1
    · rw [if_neg hheld]
      exact h.settle _ rfl (.inl (by simp)) (by simp [hparked]) (by simp [Reading.inPark])
  | look =>
    cases hr : l.reader <;> simp only [Conn.readerStep, hr, reduceCtorEq] at hs
    cases hs
    have hparked := h.unparked (by rw [hr]; rfl) (by simp [hr])
    have hholding := hstreams.holding_iff (.inl (by rw [hr]; rfl))
    by_cases hfrozen : l.frozen = true
    · rw [if_pos hfrozen]
      by_cases hheld : l.holding = true
      · rw [if_pos hheld]
        exact h.settle _ rfl (.inl (by simp)) (by simp [hparked]) (by simp [Reading.inPark])
      · rw [if_neg hheld]
        refine h.settle _ rfl (.inr hparked) (by simp [hparked]) fun _ => ?_
        exact not_not.1 fun hne => hheld (hholding.2 hne)
    · rw [if_neg hfrozen]
      exact h.away hparked (fun topics hc => hfrozen (h.carried topics hc).1) rfl ⟨rfl, rfl, rfl⟩ rfl
  | park =>
    cases hr : l.reader <;> simp only [Conn.readerStep, hr, reduceCtorEq] at hs
    cases hs
    have hunframed := h.boundary (by rw [hr]; rfl)
    refine ⟨fun _ => hunframed, fun _ => ⟨.inl rfl, by simp, hunframed⟩, h.writer, fun hp => ?_,
      fun topics hc => ?_⟩
    · exact hcalm (by simpa [Row.parked, parksSecond] using hp)
    · obtain ⟨hfrozen, htopics, -, -, hwriter, hunqueued⟩ := h.carried topics hc
      exact ⟨hfrozen, htopics, rfl, hunframed, hwriter, hunqueued⟩
  | leave =>
    cases hr : l.reader <;> simp only [Conn.readerStep, hr, reduceCtorEq] at hs
    split at hs
    · cases hs
    · cases hs
      exact h.settle _ rfl (.inl (by simp)) (fun _ => .inl rfl) fun _ => h.boundary (by rw [hr]; rfl)
  | resume =>
    cases hr : l.reader <;> simp only [Conn.readerStep, hr, reduceCtorEq] at hs
    cases hs
    refine ⟨by simp [Reading.inPark], by simp, h.writer, by simp [Row.parked], fun topics hc => ?_⟩
    obtain ⟨hfrozen, htopics, -, hunframed, hwriter, hunqueued⟩ := h.carried topics hc
    exact ⟨hfrozen, htopics, rfl, hunframed, hwriter, hunqueued⟩
  | read | decode | pend | wake | hangUp | reject | greet | dispatch | record | enqueue
  | peerGone =>
    rcases readerStep_busy hs (by simp) with ⟨hbusy, hpark, hrow⟩ | ⟨hr, rfl⟩
    · have hin := Reading.inPark_of_busy hbusy
      refine h.away (h.unparked hin.1 hin.2) (fun topics hc => ?_) hpark
        ⟨hframe.2.1, hframe.2.2.1, hframe.2.2.2.2.2.2⟩ hrow
      rw [(h.carried topics hc).2.2.1] at hbusy
      cases hbusy
    · exact h.settle _ rfl (.inl (by simp)) (fun _ => .inr rfl) (by simp [Reading.inPark])

theorem writerStep_busy {e : WriterEvent} (hs : l.writerStep e = some l')
    (he : e ≠ .look ∧ e ≠ .park ∧ e ≠ .leave ∧ e ≠ .resume) :
    l.writer.stays = false ∧ l'.row.writerParked = l.row.writerParked := by
  unfold Conn.writerStep at hs
  split at hs
  all_goals try dsimp only at hs
  all_goals try split at hs
  all_goals try split at hs
  all_goals try cases hs
  all_goals simp_all [Writing.stays]

/-- While the table stays frozen a writer that was counted on takes nothing
off the queue. -/
theorem Parks.writerStep (h : l.Parks) {e : WriterEvent} (hs : l.writerStep e = some l')
    (hcalm : l.Calm (.writer e)) : l'.Parks := by
  cases e with
  | look =>
    cases hw : l.writer <;> simp only [Conn.writerStep, hw, reduceCtorEq] at hs
    cases hs
    have hparked : l.row.writerParked = true → False := by
      intro hp
      have hin := h.writer hp
      simp [hw] at hin
    refine ⟨h.boundary, h.reader, fun hp => (hparked hp).elim, h.both, fun topics hc => ?_⟩
    obtain ⟨hfrozen, htopics, hreader, hunframed, -, hunqueued⟩ := h.carried topics hc
    refine ⟨hfrozen, htopics, hreader, hunframed, ?_, hunqueued⟩
    show Writing.stays (if l.frozen = true then .parking else .receiving) = true
    rw [if_pos hfrozen]
    rfl
  | park =>
    cases hw : l.writer <;> simp only [Conn.writerStep, hw, reduceCtorEq] at hs
    cases hs
    refine ⟨h.boundary, h.reader, fun _ => .inl rfl, fun hp => ?_, fun topics hc => ?_⟩
    · exact hcalm (by simpa [Row.parked, parksSecond] using hp)
    · obtain ⟨hfrozen, htopics, hreader, hunframed, -, hunqueued⟩ := h.carried topics hc
      exact ⟨hfrozen, htopics, hreader, hunframed, rfl, hunqueued⟩
  | leave =>
    cases hw : l.writer <;> simp only [Conn.writerStep, hw, reduceCtorEq] at hs
    split at hs
    · cases hs
    · next hthawed =>
      cases hs
      exact ⟨h.boundary, h.reader, fun _ => .inr rfl, h.both,
        fun topics hc => absurd (h.carried topics hc).1 hthawed⟩
  | resume =>
    cases hw : l.writer <;> simp only [Conn.writerStep, hw, reduceCtorEq] at hs
    cases hs
    refine ⟨h.boundary, h.reader, by simp, by simp [Row.parked], fun topics hc => ?_⟩
    obtain ⟨hfrozen, htopics, hreader, hunframed, -, hunqueued⟩ := h.carried topics hc
    exact ⟨hfrozen, htopics, hreader, hunframed, rfl, hunqueued⟩
  | receive | pend | feed | write | flush | fail =>
    obtain ⟨hbusy, hrow⟩ := writerStep_busy hs (by simp)
    have hparked : l.row.writerParked = false := by
      cases hp : l.row.writerParked with
      | false => rfl
      | true => rcases h.writer hp with hw | hw <;> rw [hw] at hbusy <;> cases hbusy
    rw [hparked] at hrow
    have hcarried : ∀ topics, l.carried ≠ some topics := by
      intro topics hc
      rw [(h.carried topics hc).2.2.2.2.1] at hbusy
      cases hbusy
    rw [writerStep_frame hs, hrow]
    exact ⟨h.boundary, h.reader, by simp, by simp [Row.parked],
      fun topics hc => absurd hc (hcarried topics)⟩

theorem Parks.step (h : l.Parks) (hstreams : l.Streams) {e : Event} (hs : l.Step e l')
    (hcalm : l.Calm e) : l'.Parks := by
  unfold Step Conn.step at hs
  cases e with
  | arrive =>
    cases hs
    exact ⟨h.boundary, h.reader, h.writer, h.both, h.carried⟩
  | emit payload =>
    dsimp only at hs
    split at hs
    · cases hs
      have hunqueued : l.Unqueued →
          Conn.Unqueued { l with queue := l.queue ++ [.event payload] } := by
        intro hq out hout
        rcases List.mem_append.1 hout with hout | hout
        · exact hq out hout
        · rw [List.mem_singleton.1 hout]
          rfl
      refine ⟨h.boundary, h.reader, h.writer, fun hp => hunqueued (h.both hp), fun topics hc => ?_⟩
      obtain ⟨hfrozen, htopics, hreader, hunframed, hwriter, hq⟩ := h.carried topics hc
      exact ⟨hfrozen, htopics, hreader, hunframed, hwriter, hunqueued hq⟩
    · cases hs
  | freeze =>
    cases hs
    refine ⟨h.boundary, h.reader, h.writer, h.both, fun topics hc => ?_⟩
    exact ⟨rfl, (h.carried topics hc).2⟩
  | copy =>
    dsimp only at hs
    split at hs
    · next hfrozen =>
      cases hs
      refine ⟨h.boundary, h.reader, h.writer, h.both, fun topics hc => ?_⟩
      obtain ⟨hp, htopics⟩ : l.row.parked = true ∧ l.row.topics = topics := by
        simpa [Option.ite_none_right_eq_some] using hc
      obtain ⟨hrp, hwp⟩ := Bool.and_eq_true_iff.1 hp
      obtain ⟨hin, -, hunframed⟩ := h.reader hrp
      refine ⟨hfrozen, htopics.symm, ?_, hunframed, ?_, h.both hp⟩
      · show l.reader.stays = true
        cases hb : l.reader.stays with
        | true => rfl
        | false =>
          obtain ⟨hout, hended⟩ := Reading.inPark_of_busy hb
          rcases hin with hin | hin
          · rw [hout] at hin
            cases hin
          · exact absurd hin hended
      · show l.writer.stays = true
        rcases h.writer hwp with hw | hw <;> rw [hw] <;> rfl
    · cases hs
  | thaw =>
    cases hs
    exact ⟨h.boundary, h.reader, h.writer, h.both, by simp⟩
  | reader e => exact h.readerStep hstreams hs hcalm
  | writer e => exact h.writerStep hs hcalm

end Conn

end Link

end Shep
