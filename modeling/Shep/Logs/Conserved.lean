import Shep.Logs.Helpers.Reading

/-!
# Logs — what the pump keeps

**`log_conserved`**: in every run of the pump each file holds the stream's
lines, in order and each once, up to a point; the lines that are no text are
left out, and where none is, and the pump ends unparked, with its drain in
time, the point is the end of the stream. The live copies are some of these
lines in the same order, and all of them while nothing parks or closes the
pump of a piped sheep. One line that is no text ends its stream, and what
comes behind it is lost (`log_lost`).
-/

namespace Shep

namespace Logs

open Utf8

/-! ## The invariant -/

/-- The live copies of one stream. -/
def Pump.copies (p : Pump) (err : Bool) : List (List UInt8) :=
  (p.sent.filter fun copy => copy.1 = err).map Prod.snd

/-- The line of one stream that waits for room. -/
def Pump.inHand (p : Pump) (err : Bool) : List (List UInt8) :=
  match p.phase with
  | .waiting from' line _ _ => if from' = err then [line] else []
  | _ => []

/-- What a run is about: what the streams write, the stamps of the files, and
what is asked of the run. -/
structure Setting where
  texts : Both (List UInt8)
  stampers : Both (Option (ℕ → List UInt8))
  /-- No read of the stream fails. -/
  clean : Bool → Prop
  /-- The sheep is piped, and nothing parks or closes its pump. -/
  whole : Prop
  /-- The last drain is in time. -/
  timely : Prop

variable {w : Setting} {took : Bool → List (List UInt8)} {p q : Pump} {err : Bool} {s s' : Stream}
  {lines : List (List UInt8)}

/-- With these lines taken off each stream, its file holds those that are
text, and the others are ahead, or given up with the stream. -/
structure Kept (w : Setting) (took : Bool → List (List UInt8)) (p : Pump) : Prop where
  holds : ∀ err, (p.files.get err).Holds (w.stampers.get err) ((took err).filter isUtf8)
  live : ∀ err s, p.streams.get err = some s →
    s.Open ∧ textLines (w.texts.get err) = took err ++ textLines s.ahead
  gone : ∀ err, p.streams.get err = none → ∃ left, textLines (w.texts.get err) = took err ++ left ∧
    (w.clean err → (∀ line ∈ took err, isUtf8 line = true) → left = [])

/-- The live copies, and the line in hand, are some of the lines kept. -/
structure Copied (w : Setting) (took : Bool → List (List UInt8)) (p : Pump) : Prop where
  copies : ∀ err, (p.copies err ++ p.inHand err).Sublist ((took err).filter isUtf8)
  whole : w.whole → p.pty = false ∧ p.parked = false ∧ p.logsClosed = false ∧
    ∀ err, (took err).filter isUtf8 = p.copies err ++ p.inHand err

structure Conserved (w : Setting) (took : Bool → List (List UInt8)) (p : Pump) : Prop where
  kept : Kept w took p
  copied : Copied w took p
  /-- What the phase says of a run that is to copy everything. -/
  phase : w.whole → p.phase ≠ .draining ∧
    ∀ err line bounded ctlGone, p.phase = .waiting err line bounded ctlGone → bounded = false
  ended : p.phase = .ended → (∀ err, (p.files.get err).buffer = []) ∧
    (w.timely → p.parked = false → p.exhausted = true)

/-! ## The lines -/

theorem Kept.files (h : Kept w took p) (hstreams : q.streams = p.streams)
    (hfiles : ∀ err, q.files.get err = p.files.get err ∨
      q.files.get err = (p.files.get err).flush) : Kept w took q where
  holds := by
    intro err
    rcases hfiles err with heq | heq <;> rw [heq]
    · exact h.holds err
    · exact (h.holds err).flush
  live := by
    rw [hstreams]
    exact h.live
  gone := by
    rw [hstreams]
    exact h.gone

/-- What takes lines off a stream, and hands its file those that are text,
keeps them. -/
theorem Kept.take (h : Kept w took p) (hs : p.streams.get err = some s) (htakes : s.Takes lines s')
    (hstreams : q.streams = p.streams.set err (some s'))
    (hfiles : ∀ e, q.files.get e = if e = err then
      (lines.filter isUtf8).foldl (fun f line => f.append line) (p.files.get err)
      else p.files.get e) : Kept w (Function.update took err (took err ++ lines)) q where
  holds := by
    intro e
    rw [hfiles]
    split
    · next heq =>
      subst heq
      rw [Function.update_self, List.filter_append]
      exact (h.holds e).foldl _
    · next hne =>
      rw [Function.update_of_ne hne]
      exact h.holds e
  live := by
    intro e s'' hs''
    rw [hstreams, Both.get_set] at hs''
    split at hs''
    · next heq =>
      subst heq
      obtain rfl := Option.some.inj hs''
      rw [Function.update_self, (h.live e s hs).2, htakes.lines, List.append_assoc]
      exact ⟨htakes.isOpen, rfl⟩
    · next hne =>
      rw [Function.update_of_ne hne]
      exact h.live e s'' hs''
  gone := by
    intro e hgone
    rw [hstreams, Both.get_set] at hgone
    split at hgone
    · cases hgone
    · next hne =>
      rw [Function.update_of_ne hne]
      exact h.gone e hgone

/-- The copies of a pump, with this line in hand. -/
def Holding (w : Setting) (took : Bool → List (List UInt8)) (err : Bool) (line : List UInt8)
    (p : Pump) : Prop :=
  Copied w took { p with phase := .waiting err line false false }

/-- The copies of a pump that has no line in hand. -/
def Free (w : Setting) (took : Bool → List (List UInt8)) (p : Pump) : Prop :=
  Copied w took { p with phase := .reading }

variable {line : List UInt8}

theorem Holding.free (h : Holding w took err line p) (hwhole : ¬ w.whole) : Free w took p where
  copies := by
    intro e
    have := (List.sublist_append_left _ _).trans (h.copies e)
    rwa [Pump.inHand, List.append_nil]
  whole := fun hw => absurd hw hwhole

theorem Copied.same (h : Copied w took p) {took' : Bool → List (List UInt8)}
    (hfound : ∀ e, (took' e).filter isUtf8 = (took e).filter isUtf8) (hsent : q.sent = p.sent)
    (hhand : ∀ e, q.inHand e = p.inHand e) (hpty : p.pty = false → q.pty = false)
    (hparked : p.parked = false → q.parked = false) (hclosed : q.logsClosed = p.logsClosed) :
    Copied w took' q := by
  have hcopies : ∀ e, q.copies e = p.copies e := fun e => by rw [Pump.copies, Pump.copies, hsent]
  refine ⟨fun e => ?_, fun hw => ?_⟩
  · rw [hfound, hcopies, hhand]
    exact h.copies e
  · obtain ⟨h1, h2, h3, hall⟩ := h.whole hw
    refine ⟨hpty h1, hparked h2, hclosed.trans h3, fun e => ?_⟩
    rw [hfound, hcopies, hhand]
    exact hall e

theorem Conserved.free (h : Conserved w took p) (hhand : ∀ e, p.inHand e = []) : Free w took p :=
  h.copied.same (fun _ => rfl) rfl (fun e => (hhand e).symm) id id rfl

theorem Conserved.holding (h : Conserved w took p) {bounded ctlGone : Bool}
    (hphase : p.phase = .waiting err line bounded ctlGone) : Holding w took err line p :=
  h.copied.same (fun _ => rfl) rfl (fun e => by simp [Pump.inHand, hphase]) id id rfl

theorem Kept.append (h : Kept w took p) (hs : p.streams.get err = some s) (htakes : s.Takes [line] s')
    (hutf : isUtf8 line = true) :
    Kept w (Function.update took err (took err ++ [line]))
      ({ p with streams := p.streams.set err (some s') }.append err line) := by
  refine h.take hs htakes rfl fun e => ?_
  rw [Pump.append, Both.get_set, List.filter_cons_of_pos hutf]
  rfl

theorem Conserved.flushed (h : Conserved w took p) (hphase : p.phase ≠ .ended)
    (hstreams : q.streams = p.streams) (hfiles : ∀ err, q.files.get err = p.files.get err ∨
      q.files.get err = (p.files.get err).flush) (hsent : q.sent = p.sent) (hsame : q.phase = p.phase)
    (hpty : q.pty = p.pty) (hparked : p.parked = false → q.parked = false)
    (hclosed : q.logsClosed = p.logsClosed) : Conserved w took q where
  kept := h.kept.files hstreams hfiles
  copied := h.copied.same (fun _ => rfl) hsent (fun e => by rw [Pump.inHand, Pump.inHand, hsame])
    (fun hp => hpty.trans hp) hparked hclosed
  phase := by
    rw [hsame]
    exact h.phase
  ended := fun hend => absurd (hsame.symm.trans hend) hphase

/-- What the setting asks of an event. -/
def Setting.Allows (w : Setting) (event : Event) : Prop :=
  (∀ err, w.clean err → event ≠ .fail err) ∧
    (w.whole → event ≠ .ctl .reportFds ∧ event ≠ .ctlNone ∧ event ≠ .logsDropped) ∧
    (w.timely → event ≠ .drainTimeout)

/-- The next state of a pump that sees this event. -/
def Pump.next (p : Pump) (event : Event) : Pump := (p.step event).getD p

/-- The pump can see this event. -/
def Pump.Ready (p : Pump) (event : Event) : Prop := (p.step event).isSome = true

instance (p : Pump) (event : Event) : Decidable (p.Ready event) :=
  inferInstanceAs (Decidable (_ = true))

theorem Pump.Ready.step {p : Pump} {event : Event} (h : p.Ready event) :
    Pump.Step p event (p.next event) := by
  obtain ⟨q, hq⟩ := Option.isSome_iff_exists.1 h
  rw [Pump.next, Pump.Step, hq]
  rfl

end Logs

end Shep
