import Shep.Link.Model

/-!
# Link — what holds at every step of a connection

Three things are kept whatever the tasks, the dog and the freeze do: every
byte taken off the socket is in a delivered frame or held by the decoder,
and the decoder's flag says which (`Streams`); every delivered frame is
answered by exactly one frame of what has been fed, is in the writer's
hand, is queued or is still in the reader's, in that order (`Answers`); and
the row holds the topics of the answers so far (`Recorded`).
-/

namespace Shep

namespace Link

open Framing

/-- What the writer has taken off the queue and not fed. -/
def Writing.inHand : Writing → List Out
  | .feeding out _ => [out]
  | .gone lost => lost
  | _ => []

/-- Whether the writer has nothing half written. -/
def Writing.clear : Writing → Bool
  | .looking | .receiving | .parking | .parked | .leaving => true
  | .feeding _ _ | .flushing | .gone _ => false

/-- Whether the reader has a frame it has not answered. -/
def Reading.owes : Reading → Bool
  | .delivered | .greeting _ | .recording _ _ | .sending _ _ => true
  | .ended unanswered => unanswered
  | _ => false

/-- The answer the reader waits to queue. -/
def Reading.waiting : Reading → List Out
  | .sending out _ => [out]
  | _ => []

/-- Where the decoder's flag may lag behind the buffer: at the stream, and
once the reader has returned. -/
def Reading.lags : Reading → Bool
  | .polling | .draining | .ended _ => true
  | _ => false

/-- Where the recording of topics stands in the conversation. -/
def Reading.InStage (greeted : Bool) : Reading → Prop
  | .greeting _ => greeted = false
  | .recording _ _ => greeted = true
  | .sending out _ => (out.greets = true → greeted = false) ∧
      (out.patterns.isSome = true → greeted = true)
  | _ => True

namespace Conn

/-- Everything queued for the dog so far, in order. -/
def outs (l : Conn) : List Out := l.fed ++ l.writer.inHand ++ l.queue

/-- The number of the frame in the reader's hand. -/
def pending (l : Conn) : List ℕ := if l.reader.owes then [l.frames.length - 1] else []

/-- The bytes taken off the socket. -/
structure Streams (l : Conn) : Prop where
  bytes : l.taken = (l.frames.map onWire).flatten ++ unframed l.awaited l.buffer
  fed : ∀ n, l.awaited = .data n → l.readable = true → l.buffer ≠ []
  tracked : l.reader.lags = true ∧ l.readable = true ∨
    (l.holding = true ↔ unframed l.awaited l.buffer ≠ [])

/-- The answers given. -/
structure Answers (l : Conn) : Prop where
  inOrder : numbers l.outs ++ l.pending = List.range l.frames.length
  sending : ∀ out last, l.reader = .sending out last → out.number = some (l.frames.length - 1)
  wire : l.sent ++ l.sink = wireOf l.fed
  flushed : l.writer.clear = true → l.sink = []

/-- The topics on record. -/
structure Recorded (l : Conn) : Prop where
  topics : l.reader ≠ .ended true → l.row.topics = told (l.outs ++ l.reader.waiting)
  greeted : l.greeted = true → l.outs.any Out.greets = true
  ungreeted : l.greeted = false → ∀ out ∈ l.outs, out.greets = false ∧ out.patterns = none
  stage : l.reader.InStage l.greeted

/-! ## Frames -/

variable {l l' : Conn}

theorem writerStep_frame {e : WriterEvent} (h : l.writerStep e = some l') :
    l' = { l with
      queue := l'.queue, writer := l'.writer, sink := l'.sink, sent := l'.sent, fed := l'.fed
      row := { l.row with writerParked := l'.row.writerParked } } := by
  unfold writerStep at h
  split at h
  all_goals try dsimp only at h
  all_goals try split at h
  all_goals try split at h
  all_goals first
    | cases h; rfl
    | cases h

theorem writerStep_outs {e : WriterEvent} (h : l.writerStep e = some l') : l'.outs = l.outs := by
  unfold writerStep at h
  split at h
  all_goals try dsimp only at h
  all_goals try split at h
  all_goals try split at h
  all_goals try cases h
  all_goals simp_all [outs, Writing.inHand]

/-- What the reader leaves alone. -/
theorem readerStep_frame {e : ReaderEvent} (h : l.readerStep e = some l') :
    l'.frozen = l.frozen ∧ l'.carried = l.carried ∧ l'.writer = l.writer ∧ l'.sink = l.sink ∧
      l'.sent = l.sent ∧ l'.fed = l.fed ∧ l'.row.writerParked = l.row.writerParked := by
  have hdecode : l.decodeFrame.frozen = l.frozen ∧ l.decodeFrame.carried = l.carried ∧
      l.decodeFrame.writer = l.writer ∧ l.decodeFrame.sink = l.sink ∧
      l.decodeFrame.sent = l.sent ∧ l.decodeFrame.fed = l.fed ∧
      l.decodeFrame.row.writerParked = l.row.writerParked := by
    unfold decodeFrame
    split
    · simp
    · dsimp only
      split <;> simp
  unfold readerStep at h
  split at h
  all_goals try dsimp only at h
  all_goals try split at h
  all_goals try split at h
  all_goals first
    | cases h; exact hdecode
    | cases h; exact ⟨rfl, rfl, rfl, rfl, rfl, rfl, rfl⟩
    | cases h

/-! ## The bytes -/

theorem Streams.holding_iff (h : l.Streams)
    (hrest : l.reader.lags = false ∨ l.readable = false) :
    l.holding = true ↔ unframed l.awaited l.buffer ≠ [] := by
  rcases h.tracked with ⟨hs, hr⟩ | htracked
  · rcases hrest with hrest | hrest
    · rw [hs] at hrest
      cases hrest
    · rw [hr] at hrest
      cases hrest
  · exact htracked

theorem Streams.still (h : l.Streams) (hrest : l.reader.lags = false ∨ l.readable = false)
    (htaken : l'.taken = l.taken) (hframes : l'.frames = l.frames)
    (hawaited : l'.awaited = l.awaited) (hbuffer : l'.buffer = l.buffer)
    (hreadable : l'.readable = l.readable) (hholding : l'.holding = l.holding) : l'.Streams where
  bytes := by rw [htaken, hframes, hawaited, hbuffer]; exact h.bytes
  fed := by rw [hawaited, hbuffer, hreadable]; exact h.fed
  tracked := by
    rw [hawaited, hbuffer, hholding]
    exact .inr (h.holding_iff hrest)

theorem Streams.readChunk (h : l.Streams) {count : ℕ} (hoffers : l.offers count = true)
    (hlags : l.reader.lags = true) : (l.readChunk count).Streams where
  bytes := by
    show l.taken ++ l.incoming.take count = _ ++ unframed l.awaited (l.buffer ++ _)
    rw [h.bytes, List.append_assoc]
    congr 1
    cases l.awaited with
    | head => rfl
    | data n => exact List.append_assoc _ _ _
  fed := by
    rintro n - -
    obtain ⟨hpos, hle⟩ : 0 < count ∧ count ≤ l.incoming.length := by
      simpa [offers] using hoffers
    have hlen : 0 < (l.incoming.take count).length := by
      rw [List.length_take]
      omega
    exact List.append_ne_nil_of_right_ne_nil _ (List.ne_nil_of_length_pos hlen)
  tracked := .inl ⟨hlags, rfl⟩

/-- `TrackedCodec`'s flag says whether part of a frame is held. -/
theorem Streams.decodeFrame (h : l.Streams) (hreadable : l.readable = true) :
    l.decodeFrame.Streams := by
  unfold Conn.decodeFrame
  cases hd : decode maxFrameBytes l.awaited l.buffer with
  | tooLong => exact ⟨h.bytes, h.fed, .inl ⟨rfl, hreadable⟩⟩
  | item frame awaited src =>
    have hbytes := decode_unframed hd
    have hholding := decode_holding hd fun n hn => h.fed n hn hreadable
    have htaken := h.bytes
    rw [hbytes] at htaken
    cases frame with
    | none =>
      refine ⟨htaken, fun n _ hr => Bool.noConfusion hr, .inr ?_⟩
      rw [hholding]
      simp
    | some payload =>
      refine ⟨by simpa using htaken, fun n hn => ?_, .inr ?_⟩
      · rw [show awaited = .data n from hn] at hd
        exact absurd (decode_some hd) (by simp)
      · rw [hholding]
        simp

theorem Streams.readerStep (h : l.Streams) {e : ReaderEvent} (hs : l.readerStep e = some l') :
    l'.Streams := by
  unfold Conn.readerStep at hs
  split at hs
  all_goals try dsimp only at hs
  all_goals try split at hs
  all_goals try split at hs
  all_goals try cases hs
  all_goals first
    | exact h.still (by simp_all [Reading.lags]) rfl rfl rfl rfl rfl rfl
    | exact h.readChunk (by simp_all) (by simp_all [Reading.lags])
    | exact h.decodeFrame (by simp_all)

theorem Streams.step (h : l.Streams) {e : Event} (hs : l.Step e l') : l'.Streams := by
  unfold Step Conn.step at hs
  cases e with
  | arrive | freeze | thaw =>
    cases hs
    exact ⟨h.bytes, h.fed, h.tracked⟩
  | emit | copy =>
    dsimp only at hs
    split at hs
    · cases hs
      exact ⟨h.bytes, h.fed, h.tracked⟩
    · cases hs
  | reader e => exact h.readerStep hs
  | writer e =>
    rw [writerStep_frame hs]
    exact ⟨h.bytes, h.fed, h.tracked⟩

/-! ## The answers -/

theorem numbers_append (xs ys : List Out) : numbers (xs ++ ys) = numbers xs ++ numbers ys :=
  List.filterMap_append

theorem wireOf_append (xs ys : List Out) : wireOf (xs ++ ys) = wireOf xs ++ wireOf ys := by
  simp [wireOf]

theorem Answers.still (h : l.Answers) (houts : l'.outs = l.outs) (hframes : l'.frames = l.frames)
    (howes : l'.reader.owes = l.reader.owes)
    (hsending : ∀ out last, l'.reader = .sending out last → out.number = some (l.frames.length - 1))
    (hsent : l'.sent = l.sent) (hsink : l'.sink = l.sink) (hfed : l'.fed = l.fed)
    (hwriter : l'.writer = l.writer) : l'.Answers where
  inOrder := by rw [pending, houts, hframes, howes]; exact h.inOrder
  sending := by rw [hframes]; exact hsending
  wire := by rw [hsent, hsink, hfed]; exact h.wire
  flushed := by rw [hwriter, hsink]; exact h.flushed

theorem Answers.decodeFrame (h : l.Answers) (howes : l.reader.owes = false)
    (hquiet : ∀ out last, l.reader ≠ .sending out last) : l.decodeFrame.Answers := by
  have hnone : l.pending = [] := by simp [pending, howes]
  have hall := h.inOrder
  rw [hnone, List.append_nil] at hall
  unfold Conn.decodeFrame
  split
  · exact h.still rfl rfl howes.symm (by simp) rfl rfl rfl rfl
  · dsimp only
    split
    · refine ⟨?_, by simp, h.wire, h.flushed⟩
      simp only [pending, Reading.owes, outs, List.length_append, List.length_singleton,
        List.range_succ] at hall ⊢
      rw [hall]
      rfl
    · exact h.still rfl rfl rfl (fun out last he => absurd he (hquiet out last)) rfl rfl rfl rfl

theorem Answers.enqueue (h : l.Answers) {out : Out} {last : Bool} {reader : Reading}
    (hr : l.reader = .sending out last) (howes : reader.owes = false)
    (hquiet : ∀ out last, reader ≠ .sending out last) :
    Answers { l with
      queue := l.queue ++ [out], greeted := l.greeted || out.greets, reader := reader } := by
  refine ⟨?_, fun out' last' he => absurd he (hquiet out' last'), h.wire, h.flushed⟩
  have hall := h.inOrder
  have hnumber := h.sending out last hr
  simp only [pending, hr, Reading.owes, if_true] at hall
  simp only [pending, howes, outs, Bool.false_eq_true, if_false, List.append_nil]
  rw [← List.append_assoc, numbers_append, ← hall]
  simp [numbers, outs, hnumber]

theorem Answers.readerStep (h : l.Answers) {e : ReaderEvent} (hs : l.readerStep e = some l') :
    l'.Answers := by
  unfold Conn.readerStep at hs
  split at hs
  all_goals try dsimp only at hs
  all_goals try split at hs
  all_goals try split at hs
  all_goals try cases hs
  all_goals first
    | exact h.still rfl rfl (by simp_all [Reading.owes, readChunk])
        (by simp_all [answer, Out.number, readChunk]) rfl rfl rfl rfl
    | exact h.decodeFrame (by simp_all [Reading.owes]) (by simp_all)
    | exact h.enqueue (by assumption) (by split <;> rfl) (by intro out last; split <;> simp)

theorem Answers.idle (h : l.Answers) (houts : l'.outs = l.outs) (hframes : l'.frames = l.frames)
    (hreader : l'.reader = l.reader) (hwire : l'.sent ++ l'.sink = wireOf l'.fed)
    (hflushed : l'.writer.clear = true → l'.sink = []) : l'.Answers where
  inOrder := by rw [pending, houts, hframes, hreader]; exact h.inOrder
  sending := by rw [hframes, hreader]; exact h.sending
  wire := hwire
  flushed := hflushed

theorem Answers.writerStep (h : l.Answers) {e : WriterEvent} (hs : l.writerStep e = some l') :
    l'.Answers := by
  have houts := writerStep_outs hs
  have hwire := h.wire
  have hflushed := h.flushed
  have hfed : ∀ out : Out, l.sent ++ (l.sink ++ onWire out.payload) = wireOf (l.fed ++ [out]) := by
    intro out
    rw [wireOf_append, ← hwire]
    simp [wireOf]
  have htaken : ∀ count, l.sent ++ l.sink.take count ++ l.sink.drop count = wireOf l.fed := by
    intro count
    rw [List.append_assoc, List.take_append_drop, hwire]
  unfold Conn.writerStep at hs
  split at hs
  all_goals try dsimp only at hs
  all_goals try split at hs
  all_goals try split at hs
  all_goals try cases hs
  all_goals
    refine h.idle houts rfl rfl (by first | exact hwire | exact hfed _ | exact htaken _) ?_
  all_goals simp_all [Writing.clear]

theorem Answers.step (h : l.Answers) {e : Event} (hs : l.Step e l') : l'.Answers := by
  unfold Step Conn.step at hs
  cases e with
  | arrive | freeze | thaw =>
    cases hs
    exact ⟨h.inOrder, h.sending, h.wire, h.flushed⟩
  | emit payload =>
    dsimp only at hs
    split at hs
    · cases hs
      refine ⟨?_, h.sending, h.wire, h.flushed⟩
      show numbers (l.fed ++ l.writer.inHand ++ (l.queue ++ [.event payload])) ++ l.pending = _
      rw [← List.append_assoc, numbers_append, show numbers [Out.event payload] = [] from rfl,
        List.append_nil]
      exact h.inOrder
    · cases hs
  | copy =>
    dsimp only at hs
    split at hs
    · cases hs
      exact ⟨h.inOrder, h.sending, h.wire, h.flushed⟩
    · cases hs
  | reader e => exact h.readerStep hs
  | writer e => exact h.writerStep hs

/-! ## The topics -/

theorem told_append {xs ys : List Out}
    (h : ∀ out ∈ ys, out.greets = false ∧ out.patterns = none) : told (xs ++ ys) = told xs := by
  have hgreets : ys.any Out.greets = false := by
    rw [List.any_eq_false]
    exact fun out hout => by simp [(h out hout).1]
  have hpatterns : ys.filterMap Out.patterns = [] :=
    List.filterMap_eq_nil_iff.2 fun out hout => (h out hout).2
  simp [told, hgreets, hpatterns]

theorem told_event (xs ys : List Out) (payload : List UInt8) :
    told (xs ++ [.event payload] ++ ys) = told (xs ++ ys) := by
  simp [told, Out.greets, Out.patterns]

theorem Recorded.still (h : l.Recorded) (houts : l'.outs = l.outs)
    (htopics : l'.row.topics = l.row.topics) (hgreeted : l'.greeted = l.greeted)
    (hwaiting : l'.reader ≠ .ended true → l.reader ≠ .ended true ∧
      told (l.outs ++ l'.reader.waiting) = told (l.outs ++ l.reader.waiting))
    (hstage : l'.reader.InStage l.greeted) : l'.Recorded where
  topics := by
    intro hgoes
    obtain ⟨hwent, hsame⟩ := hwaiting hgoes
    rw [htopics, houts, hsame]
    exact h.topics hwent
  greeted := by rw [hgreeted, houts]; exact h.greeted
  ungreeted := by rw [hgreeted, houts]; exact h.ungreeted
  stage := by rw [hgreeted]; exact hstage

/-- A `Hello` is on record before it is acknowledged. -/
theorem Recorded.greet (h : l.Recorded) {payload : List UInt8}
    (hr : l.reader = .greeting payload) (last : Bool) : Recorded { l with
      row := { l.row with topics := some (l.row.topics.getD []) }
      reader := .sending (l.answer .greeting payload) last } := by
  have hnew : l.greeted = false := by
    have hstage := h.stage
    rw [hr] at hstage
    exact hstage
  have hplain := h.ungreeted hnew
  have hnone : l.outs.any Out.greets = false := by
    rw [List.any_eq_false]
    exact fun out hout => by simp [(hplain out hout).1]
  have hpatterns : l.outs.filterMap Out.patterns = [] :=
    List.filterMap_eq_nil_iff.2 fun out hout => (hplain out hout).2
  have htopics : l.row.topics = none := by
    rw [h.topics (by simp [hr]), hr]
    simp [Reading.waiting, told, hnone]
  refine ⟨fun _ => ?_, h.greeted, h.ungreeted, ?_⟩
  · show some (l.row.topics.getD []) = told (l.outs ++ [l.answer .greeting payload])
    rw [htopics]
    simp [told, answer, Out.greets, Out.patterns, hpatterns]
  · exact ⟨fun _ => hnew, fun hsome => Bool.noConfusion hsome⟩

theorem Recorded.subscribe (h : l.Recorded) {patterns : List String} {payload : List UInt8}
    (hr : l.reader = .recording patterns payload) (last : Bool) : Recorded { l with
      row := { l.row with topics := some patterns }
      reader := .sending (l.answer (.subscribed patterns) payload) last } := by
  have hgreeted : l.greeted = true := by
    have hstage := h.stage
    rw [hr] at hstage
    exact hstage
  refine ⟨fun _ => ?_, h.greeted, h.ungreeted, ?_⟩
  · show some patterns = told (l.outs ++ [l.answer (.subscribed patterns) payload])
    have hany := h.greeted hgreeted
    simp [told, answer, Out.patterns, hany]
  · exact ⟨fun hg => Bool.noConfusion hg, fun _ => hgreeted⟩

theorem Recorded.enqueue (h : l.Recorded) {out : Out} {last : Bool} {reader : Reading}
    (hr : l.reader = .sending out last) (hwaiting : reader.waiting = [])
    (hstage : reader.InStage (l.greeted || out.greets)) :
    Recorded { l with
      queue := l.queue ++ [out], greeted := l.greeted || out.greets, reader := reader } := by
  have htopics := h.topics (by simp [hr])
  have hst := h.stage
  rw [hr] at htopics hst
  have houts : Conn.outs { l with
      queue := l.queue ++ [out], greeted := l.greeted || out.greets, reader := reader } =
      l.outs ++ [out] := (List.append_assoc _ _ _).symm
  refine ⟨fun _ => ?_, ?_, ?_, hstage⟩
  · rw [houts]
    show l.row.topics = told (l.outs ++ [out] ++ reader.waiting)
    rw [hwaiting, List.append_nil]
    exact htopics
  · intro hg
    rw [houts, List.any_append]
    rcases Bool.or_eq_true_iff.1 hg with hg | hg
    · rw [h.greeted hg, Bool.true_or]
    · simp [hg]
  · intro hg
    obtain ⟨hold, hnew⟩ := Bool.or_eq_false_iff.1 hg
    rw [houts]
    intro out' hout'
    rcases List.mem_append.1 hout' with hout' | hout'
    · exact h.ungreeted hold out' hout'
    · obtain rfl := List.mem_singleton.1 hout'
      refine ⟨hnew, ?_⟩
      cases hp : out'.patterns with
      | none => rfl
      | some patterns =>
        rw [hst.2 (by rw [hp]; rfl)] at hold
        cases hold

theorem Recorded.decodeFrame (h : l.Recorded) (hwaiting : l.reader.waiting = [])
    (hgoes : l.reader ≠ .ended true) : l.decodeFrame.Recorded := by
  unfold Conn.decodeFrame
  split
  · exact h.still rfl rfl rfl (fun _ => ⟨hgoes, by rw [hwaiting]; rfl⟩) trivial
  · dsimp only
    split
    · exact h.still rfl rfl rfl (fun _ => ⟨hgoes, by rw [hwaiting]; rfl⟩) trivial
    · exact h.still rfl rfl rfl (fun _ => ⟨hgoes, rfl⟩) h.stage

theorem Recorded.readerStep (h : l.Recorded) {e : ReaderEvent} (hs : l.readerStep e = some l') :
    l'.Recorded := by
  have hplain : ∀ (tells : Tells) (payload : List UInt8), tells = .refusal ∨ tells = .other →
      told (l.outs ++ [l.answer tells payload]) = told l.outs := by
    intro tells payload ht
    refine told_append fun out hout => ?_
    rw [List.mem_singleton.1 hout]
    rcases ht with rfl | rfl <;> exact ⟨rfl, rfl⟩
  unfold Conn.readerStep at hs
  split at hs
  all_goals try dsimp only at hs
  all_goals try split at hs
  all_goals try split at hs
  all_goals try cases hs
  all_goals first
    | exact h.still rfl rfl rfl (by simp_all [Reading.waiting, readChunk])
        (by simp_all [Reading.InStage, readChunk, answer, Out.greets, Out.patterns])
    | exact h.greet (by assumption) _
    | exact h.subscribe (by assumption) _
    | exact h.enqueue (by assumption) (by split <;> rfl) (by split <;> trivial)
    | exact h.decodeFrame (by simp_all [Reading.waiting]) (by simp_all)

theorem Recorded.step (h : l.Recorded) {e : Event} (hs : l.Step e l') : l'.Recorded := by
  unfold Step Conn.step at hs
  cases e with
  | arrive | freeze | thaw =>
    cases hs
    exact ⟨h.topics, h.greeted, h.ungreeted, h.stage⟩
  | emit payload =>
    dsimp only at hs
    split at hs
    · cases hs
      have houts : Conn.outs { l with queue := l.queue ++ [.event payload] } =
          l.outs ++ [.event payload] := (List.append_assoc _ _ _).symm
      refine ⟨fun hgoes => ?_, fun hg => ?_, fun hg => ?_, h.stage⟩
      · rw [houts, told_event]
        exact h.topics hgoes
      · rw [houts, List.any_append, h.greeted hg, Bool.true_or]
      · rw [houts]
        intro out hout
        rcases List.mem_append.1 hout with hout | hout
        · exact h.ungreeted hg out hout
        · rw [List.mem_singleton.1 hout]
          exact ⟨rfl, rfl⟩
    · cases hs
  | copy =>
    dsimp only at hs
    split at hs
    · cases hs
      exact ⟨h.topics, h.greeted, h.ungreeted, h.stage⟩
    · cases hs
  | reader e => exact h.readerStep hs
  | writer e =>
    have houts := writerStep_outs hs
    rw [writerStep_frame hs] at houts ⊢
    exact ⟨by rw [houts]; exact h.topics, by rw [houts]; exact h.greeted,
      by rw [houts]; exact h.ungreeted, h.stage⟩

end Conn

end Link

end Shep
