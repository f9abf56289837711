import Shep.Link.Helpers.Sound
import Mathlib.Logic.Relation

/-!
# Link — a thawed connection answers what it owes

While the table is not frozen the two tasks can always go on: the writer
empties its queue whatever is in it, the reader then has room for the
answer it holds, and the writer sends that too.
-/

namespace Shep

namespace Link

open Framing

/-- A step of a connection that is being served: neither the freeze's, nor
a task giving up. -/
def Event.serves : Event → Bool
  | .reader .hangUp | .reader .reject | .reader .peerGone | .writer .fail => false
  | .reader _ | .writer _ => true
  | _ => false

namespace Conn

/-- One step of serving. -/
def Serve (l l' : Conn) : Prop := ∃ e : Event, e.serves = true ∧ l.Step e l'

/-- Serving, for a while. -/
abbrev Serves : Conn → Conn → Prop := Relation.ReflTransGen Serve

/-- What the writer's work leaves alone. -/
structure Aside (l l' : Conn) : Prop where
  reader : l'.reader = l.reader
  frames : l'.frames = l.frames
  frozen : l'.frozen = l.frozen
  greeted : l'.greeted = l.greeted

variable {l l' : Conn}

theorem Aside.refl (l : Conn) : l.Aside l := ⟨rfl, rfl, rfl, rfl⟩

theorem Aside.trans {l'' : Conn} (h : l.Aside l') (h' : l'.Aside l'') : l.Aside l'' :=
  ⟨h'.reader.trans h.reader, h'.frames.trans h.frames, h'.frozen.trans h.frozen,
    h'.greeted.trans h.greeted⟩

theorem serve_reader {e : ReaderEvent} (he : (Event.reader e).serves = true)
    (h : l.readerStep e = some l') : l.Serve l' := ⟨.reader e, he, h⟩

theorem serve_writer {e : WriterEvent} (he : (Event.writer e).serves = true)
    (h : l.writerStep e = some l') : l.Serve l' := ⟨.writer e, he, h⟩

theorem flushing_serves (hw : l.writer = .flushing) :
    l.Serves { l with sent := l.sent ++ l.sink, sink := [], writer := .looking } := by
  have hwrite : l.Serve { l with sent := l.sent ++ l.sink, sink := [] } := by
    refine serve_writer (e := .write l.sink.length) rfl ?_
    simp [writerStep, hw]
  refine .tail (.single hwrite) (serve_writer (e := .flush) rfl ?_)
  simp [writerStep, hw]

/-- A batch is fed to its end and flushed. -/
theorem feeding_serves : ∀ (queue : List Out) (l : Conn) (out : Out) (fed : ℕ),
    l.queue = queue → l.writer = .feeding out fed →
    ∃ l', l.Serves l' ∧ l.Aside l' ∧ l'.writer = .looking ∧ l'.sink = [] ∧
      l'.queue.length ≤ queue.length := by
  intro queue
  induction queue with
  | nil =>
    intro l out fed hq hw
    have hfeed : l.Serve { l with
        sink := l.sink ++ onWire out.payload, fed := l.fed ++ [out], writer := .flushing } := by
      refine serve_writer (e := .feed) rfl ?_
      simp [writerStep, hw, hq]
    exact ⟨_, .head hfeed (flushing_serves rfl), ⟨rfl, rfl, rfl, rfl⟩, rfl, rfl, by simp [hq]⟩
  | cons next rest ih =>
    intro l out fed hq hw
    by_cases hcap : fed + 1 < connQueue
    · have hfeed : l.Serve { l with
          sink := l.sink ++ onWire out.payload, fed := l.fed ++ [out]
          queue := rest, writer := .feeding next (fed + 1) } := by
        refine serve_writer (e := .feed) rfl ?_
        simp [writerStep, hw, hq, hcap]
      obtain ⟨l', hserves, haside, hwriter, hsink, hlen⟩ := ih
        { l with sink := l.sink ++ onWire out.payload, fed := l.fed ++ [out]
                 queue := rest, writer := .feeding next (fed + 1) } next (fed + 1) rfl rfl
      refine ⟨l', .head hfeed hserves, ⟨haside.reader, haside.frames, haside.frozen,
        haside.greeted⟩, hwriter, hsink, hlen.trans (Nat.le_succ _)⟩
    · have hfeed : l.Serve { l with
          sink := l.sink ++ onWire out.payload, fed := l.fed ++ [out], writer := .flushing } := by
        refine serve_writer (e := .feed) rfl ?_
        simp [writerStep, hw, hq, hcap]
      exact ⟨_, .head hfeed (flushing_serves rfl), ⟨rfl, rfl, rfl, rfl⟩, rfl, rfl, by simp [hq]⟩

/-- A writer between batches empties the queue. -/
theorem looking_serves : ∀ (n : ℕ) (l : Conn), l.queue.length ≤ n → l.frozen = false →
    l.writer = .looking → l.sink = [] →
    ∃ l', l.Serves l' ∧ l.Aside l' ∧ l'.writer = .looking ∧ l'.sink = [] ∧ l'.queue = [] := by
  intro n
  induction n with
  | zero =>
    intro l hlen _ hw hsink
    have hq : l.queue = [] := List.length_eq_zero_iff.1 (Nat.le_zero.1 hlen)
    exact ⟨l, .refl, .refl l, hw, hsink, hq⟩
  | succ n ih =>
    intro l hlen hfrozen hw hsink
    cases hq : l.queue with
    | nil => exact ⟨l, .refl, .refl l, hw, hsink, hq⟩
    | cons out rest =>
      have hlook : l.Serve { l with writer := .receiving } := by
        refine serve_writer (e := .look) rfl ?_
        simp [writerStep, hw, hfrozen]
      have hreceive : Serve { l with writer := .receiving }
          { l with queue := rest, writer := .feeding out 0 } := by
        refine serve_writer (e := .receive) rfl ?_
        simp [writerStep, hq]
      obtain ⟨l₁, hserves, haside, hwriter, hsink₁, hlen₁⟩ := feeding_serves rest
        { l with queue := rest, writer := .feeding out 0 } out 0 rfl rfl
      have hshort : l₁.queue.length ≤ n := by
        rw [hq, List.length_cons] at hlen
        omega
      obtain ⟨l₂, hserves₂, haside₂, hdone⟩ := ih l₁ hshort (haside.frozen.trans hfrozen) hwriter hsink₁
      have haside' : l.Aside l₁ := ⟨haside.reader, haside.frames, haside.frozen, haside.greeted⟩
      exact ⟨l₂, .head hlook (.head hreceive (hserves.trans hserves₂)), haside'.trans haside₂, hdone⟩

/-- **The writer empties the queue**, from wherever it stands. -/
theorem writer_drains (h : l.Answers) (hfrozen : l.frozen = false)
    (hgone : ∀ lost, l.writer ≠ .gone lost) :
    ∃ l', l.Serves l' ∧ l.Aside l' ∧ l'.writer = .looking ∧ l'.sink = [] ∧ l'.queue = [] := by
  -- it is enough to get it between two batches
  have hfrom : ∀ l₁ : Conn, l.Serves l₁ → l.Aside l₁ → l₁.writer = .looking → l₁.sink = [] →
      ∃ l', l.Serves l' ∧ l.Aside l' ∧ l'.writer = .looking ∧ l'.sink = [] ∧ l'.queue = [] := by
    intro l₁ hserves haside hwriter hsink
    obtain ⟨l₂, hserves₂, haside₂, hdone⟩ := looking_serves l₁.queue.length l₁ le_rfl
      (haside.frozen.trans hfrozen) hwriter hsink
    exact ⟨l₂, hserves.trans hserves₂, haside.trans haside₂, hdone⟩
  have hleaving : ∀ l₁ : Conn, l.Serves l₁ → l.Aside l₁ → l₁.writer = .leaving → l₁.sink = [] →
      ∃ l', l.Serves l' ∧ l.Aside l' ∧ l'.writer = .looking ∧ l'.sink = [] ∧ l'.queue = [] := by
    intro l₁ hserves haside hwriter hsink
    have hresume : l₁.Serve { l₁ with
        writer := .looking, row := { l₁.row with writerParked := false } } := by
      refine serve_writer (e := .resume) rfl ?_
      simp [writerStep, hwriter]
    exact hfrom _ (hserves.tail hresume) (haside.trans ⟨rfl, rfl, rfl, rfl⟩) rfl hsink
  have hparked : ∀ l₁ : Conn, l.Serves l₁ → l.Aside l₁ → l₁.writer = .parked → l₁.sink = [] →
      ∃ l', l.Serves l' ∧ l.Aside l' ∧ l'.writer = .looking ∧ l'.sink = [] ∧ l'.queue = [] := by
    intro l₁ hserves haside hwriter hsink
    have hleave : l₁.Serve { l₁ with writer := .leaving } := by
      refine serve_writer (e := .leave) rfl ?_
      simp [writerStep, hwriter, haside.frozen.trans hfrozen]
    exact hleaving _ (hserves.tail hleave) (haside.trans ⟨rfl, rfl, rfl, rfl⟩) rfl hsink
  cases hw : l.writer with
  | looking => exact hfrom l .refl (.refl l) hw (h.flushed (by rw [hw]; rfl))
  | receiving =>
    have hsink := h.flushed (by rw [hw]; rfl)
    cases hq : l.queue with
    | nil =>
      have hpend : l.Serve { l with writer := .looking } := by
        refine serve_writer (e := .pend) rfl ?_
        simp [writerStep, hw, hq]
      exact hfrom _ (.single hpend) ⟨rfl, rfl, rfl, rfl⟩ rfl hsink
    | cons out rest =>
      have hreceive : l.Serve { l with queue := rest, writer := .feeding out 0 } := by
        refine serve_writer (e := .receive) rfl ?_
        simp [writerStep, hw, hq]
      obtain ⟨l₁, hserves, haside, hwriter, hsink₁, -⟩ := feeding_serves rest
        { l with queue := rest, writer := .feeding out 0 } out 0 rfl rfl
      exact hfrom l₁ (.head hreceive hserves)
        ⟨haside.reader, haside.frames, haside.frozen, haside.greeted⟩ hwriter hsink₁
  | feeding out fed =>
    obtain ⟨l₁, hserves, haside, hwriter, hsink, -⟩ := feeding_serves l.queue l out fed rfl hw
    exact hfrom l₁ hserves haside hwriter hsink
  | flushing => exact hfrom _ (flushing_serves hw) ⟨rfl, rfl, rfl, rfl⟩ rfl rfl
  | parking =>
    have hpark : l.Serve { l with
        writer := .parked, row := { l.row with writerParked := true } } := by
      refine serve_writer (e := .park) rfl ?_
      simp [writerStep, hw]
    exact hparked _ (.single hpark) ⟨rfl, rfl, rfl, rfl⟩ rfl (h.flushed (by rw [hw]; rfl))
  | parked => exact hparked l .refl (.refl l) hw (h.flushed (by rw [hw]; rfl))
  | leaving => exact hleaving l .refl (.refl l) hw (h.flushed (by rw [hw]; rfl))
  | gone lost => exact absurd hw (hgone lost)

/-- **The reader queues the answer it owes**, once there is room. -/
theorem reader_answers (hfrozen : l.frozen = false) (hgoes : ∀ unanswered, l.reader ≠ .ended unanswered)
    (hw : l.writer = .looking) (hq : l.queue = []) :
    ∃ l', l.Serves l' ∧ l'.frames = l.frames ∧ l'.frozen = false ∧ l'.writer = .looking ∧
      l'.reader.owes = false := by
  have hsend : ∀ l₁ : Conn, l.Serves l₁ → l₁.frames = l.frames → l₁.frozen = false →
      l₁.writer = .looking → l₁.queue = [] → ∀ out last, l₁.reader = .sending out last →
      ∃ l', l.Serves l' ∧ l'.frames = l.frames ∧ l'.frozen = false ∧ l'.writer = .looking ∧
        l'.reader.owes = false := by
    intro l₁ hserves hframes hfrozen₁ hwriter hqueue out last hr
    have henqueue : l₁.Serve { l₁ with
        queue := l₁.queue ++ [out], greeted := l₁.greeted || out.greets
        reader := if last then .ended false else .top } := by
      refine serve_reader (e := .enqueue) rfl ?_
      simp [readerStep, hr, hwriter, hqueue, connQueue]
    refine ⟨_, hserves.tail henqueue, hframes, hfrozen₁, hwriter, ?_⟩
    show Reading.owes (if last then _ else _) = false
    split <;> rfl
  have hrecord : ∀ l₁ : Conn, l.Serves l₁ → l₁.frames = l.frames → l₁.frozen = false →
      l₁.writer = .looking → l₁.queue = [] →
      ((∃ payload, l₁.reader = .greeting payload) ∨
        ∃ patterns payload, l₁.reader = .recording patterns payload) →
      ∃ l', l.Serves l' ∧ l'.frames = l.frames ∧ l'.frozen = false ∧ l'.writer = .looking ∧
        l'.reader.owes = false := by
    rintro l₁ hserves hframes hfrozen₁ hwriter hqueue (⟨payload, hr⟩ | ⟨patterns, payload, hr⟩)
    · have hstep : l₁.Serve { l₁ with
          row := { l₁.row with topics := some (l₁.row.topics.getD []) }
          reader := .sending (l₁.answer .greeting payload) false } := by
        refine serve_reader (e := .record) rfl ?_
        simp [readerStep, hr, hfrozen₁]
      exact hsend _ (hserves.tail hstep) hframes hfrozen₁ hwriter hqueue _ _ rfl
    · have hstep : l₁.Serve { l₁ with
          row := { l₁.row with topics := some patterns }
          reader := .sending (l₁.answer (.subscribed patterns) payload) false } := by
        refine serve_reader (e := .record) rfl ?_
        simp [readerStep, hr, hfrozen₁]
      exact hsend _ (hserves.tail hstep) hframes hfrozen₁ hwriter hqueue _ _ rfl
  cases hr : l.reader with
  | delivered =>
    cases hg : l.greeted with
    | true =>
      have hstep : l.Serve { l with reader := .sending (l.answer .other []) false } := by
        refine serve_reader (e := .dispatch .reply []) rfl ?_
        simp [readerStep, hr, hg]
      exact hsend _ (.single hstep) rfl hfrozen hw hq _ _ rfl
    | false =>
      have hstep : l.Serve { l with reader := .greeting [] } := by
        refine serve_reader (e := .greet .welcome []) rfl ?_
        simp [readerStep, hr, hg]
      exact hrecord _ (.single hstep) rfl hfrozen hw hq (.inl ⟨[], rfl⟩)
  | greeting payload => exact hrecord l .refl rfl hfrozen hw hq (.inl ⟨payload, hr⟩)
  | recording patterns payload =>
    exact hrecord l .refl rfl hfrozen hw hq (.inr ⟨patterns, payload, hr⟩)
  | sending out last => exact hsend l .refl rfl hfrozen hw hq out last hr
  | ended unanswered => exact absurd hr (hgoes unanswered)
  | top | looking | polling | sleeping | draining | parking | parked | leaving =>
    exact ⟨l, .refl, rfl, hfrozen, hw, by rw [hr]; rfl⟩

theorem Answers.serves (h : l.Answers) (hs : l.Serves l') : l'.Answers := by
  induction hs with
  | refl => exact h
  | tail _ hstep ih =>
    obtain ⟨e, -, hstep⟩ := hstep
    exact ih.step hstep

/-- **A thawed connection answers every frame it was given.** -/
theorem answers_all (h : l.Answers) (hfrozen : l.frozen = false)
    (hgoes : ∀ unanswered, l.reader ≠ .ended unanswered) (hgone : ∀ lost, l.writer ≠ .gone lost) :
    ∃ l', l.Serves l' ∧ l'.frames = l.frames ∧ numbers l'.fed = List.range l.frames.length ∧
      l'.sent = wireOf l'.fed := by
  obtain ⟨l₁, hserves₁, haside₁, hwriter₁, -, hqueue₁⟩ := writer_drains h hfrozen hgone
  obtain ⟨l₂, hserves₂, hframes₂, hfrozen₂, hwriter₂, howes₂⟩ := reader_answers
    (haside₁.frozen.trans hfrozen) (fun b => by rw [haside₁.reader]; exact hgoes b) hwriter₁ hqueue₁
  have h₂ := (h.serves hserves₁).serves hserves₂
  obtain ⟨l₃, hserves₃, haside₃, hwriter₃, hsink₃, hqueue₃⟩ := writer_drains h₂ hfrozen₂
    (fun lost => by simp [hwriter₂])
  have h₃ := h₂.serves hserves₃
  have hframes : l₃.frames = l.frames := haside₃.frames.trans (hframes₂.trans haside₁.frames)
  refine ⟨l₃, (hserves₁.trans hserves₂).trans hserves₃, hframes, ?_, ?_⟩
  · have hall := h₃.inOrder
    have howes : l₃.reader.owes = false := by rw [haside₃.reader]; exact howes₂
    simpa [outs, pending, hwriter₃, hqueue₃, howes, hframes, Writing.inHand] using hall
  · have hwire := h₃.wire
    rwa [hsink₃, List.append_nil] at hwire

end Conn

end Link

end Shep
