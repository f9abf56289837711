import Mathlib.Data.List.Perm.Basic
import Shep.Channel.Model

/-!
# Channel — what reaches the transport

`Sending.Inv` is what every push and every step of the writer keeps: what
the writer has taken and what waits are the accepted messages in their
order, less those evicted, and no message that must be kept is missing.
`Sending.Move` is what may happen to the queue, and `sending_moves` that a
step of the channel is one of these or leaves it alone.
-/

namespace Shep

namespace Channel

variable {message m oldest : ChildMessage} {queue : List ChildMessage} {s s' : Sending} {ok : Bool}

/-! ## Eviction -/

theorem evict_cases (h : queue.find? ChildMessage.lossy = some oldest) :
    oldest.lossy = true ∧ ∃ before behind, queue = before ++ oldest :: behind ∧
      queue.eraseP ChildMessage.lossy = before ++ behind := by
  obtain ⟨hlossy, before, behind, rfl, hbefore⟩ := List.find?_eq_some_iff_append.1 h
  refine ⟨hlossy, before, behind, rfl, ?_⟩
  rw [List.eraseP_append_right _ fun m hm => by simpa using hbefore m hm,
    List.eraseP_cons_of_pos hlossy]

/-- A message that must not be lost. -/
def ChildMessage.lasting (message : ChildMessage) : Bool := !message.lossy

/-! ## What is kept -/

/-- What the writer has of the messages it was handed, by where it stands.
Once it is out of its loop, either all is written and nothing can be pushed,
or a write has failed. -/
def Sending.Stage (s : Sending) : Prop :=
  match s.writer with
  | .taking => s.outbox.inFlight = 0 ∧ s.log.handed = s.log.written ∧
      s.log.failed = false ∧ s.outbox.stopped = false
  | .writing batch => s.outbox.inFlight = batch.length ∧ batch ≠ [] ∧
      s.log.handed = s.log.written ++ batch ∧ s.log.failed = false ∧ s.outbox.stopped = false
  | .reporting count => s.outbox.inFlight = count ∧ s.log.handed = s.log.written ∧
      s.log.failed = false ∧ s.outbox.stopped = false
  | .stopping => s.outbox.stopped = false ∧
      ((s.log.failed = false ∧ s.outbox.inFlight = 0 ∧ s.log.handed = s.log.written ∧
          s.outbox.queue = [] ∧ s.outbox.closed = true) ∨
        (s.log.failed = true ∧ s.outbox.inFlight ≠ 0 ∧
          ∃ batch, batch ≠ [] ∧ s.log.handed = s.log.written ++ batch))
  | .done => s.outbox.closed = true ∧
      ((s.log.failed = false ∧ s.outbox.inFlight = 0 ∧ s.log.handed = s.log.written ∧
          s.outbox.queue = []) ∨
        (s.log.failed = true ∧ s.outbox.inFlight ≠ 0 ∧
          ∃ batch, batch ≠ [] ∧ s.log.handed = s.log.written ++ batch))

/-- What holds of the outbox and its writer at every moment. -/
structure Sending.Inv (s : Sending) : Prop where
  bounded : s.outbox.queue.length ≤ s.outbox.capacity
  order : (s.log.handed ++ s.outbox.queue).Sublist s.log.accepted
  kept : (s.log.handed ++ s.outbox.queue).filter ChildMessage.lasting =
    s.log.accepted.filter ChildMessage.lasting
  given : s.log.accepted.Perm (s.log.handed ++ s.outbox.queue ++ s.log.evicted)
  spared : ∀ m ∈ s.log.evicted ++ s.log.refused, m.lossy = true
  counted : s.outbox.dropped = min (s.log.refused.length + s.log.evicted.length) wordMax
  stage : s.Stage

theorem inv_new (capacity : ℕ) : Sending.Inv { outbox := .new capacity } where
  bounded := Nat.zero_le _
  order := .slnil
  kept := rfl
  given := .nil
  spared := List.forall_mem_nil _
  counted := rfl
  stage := ⟨rfl, rfl, rfl, rfl⟩

/-- What the writer knows does not change with what is pushed, but that a
closed outbox takes nothing more. -/
theorem Sending.Stage.of_eq (h : s.Stage) (hw : s'.writer = s.writer)
    (hf : s'.outbox.inFlight = s.outbox.inFlight) (hs : s'.outbox.stopped = s.outbox.stopped)
    (hh : s'.log.handed = s.log.handed) (hwr : s'.log.written = s.log.written)
    (hfail : s'.log.failed = s.log.failed) (hc : s.outbox.closed = true → s'.outbox.closed = true)
    (hq : s.outbox.closed = true → s'.outbox.queue = s.outbox.queue) : s'.Stage := by
  unfold Sending.Stage at h ⊢
  rw [hw]
  cases hwriter : s.writer with
  | taking | writing batch | reporting count =>
    rw [hwriter] at h; rw [hf, hs, hh, hwr, hfail]; exact h
  | stopping =>
    rw [hwriter] at h
    obtain ⟨hstopped, h⟩ := h
    rw [hf, hs, hh, hwr, hfail]
    refine ⟨hstopped, h.imp (fun ⟨h1, h2, h3, h4, h5⟩ => ?_) id⟩
    exact ⟨h1, h2, h3, (hq h5).trans h4, hc h5⟩
  | done =>
    rw [hwriter] at h
    obtain ⟨hclosed, h⟩ := h
    rw [hf, hh, hwr, hfail, hq hclosed]
    exact ⟨hc hclosed, h⟩

theorem saturating_counted {a b : ℕ} (h : a = min b wordMax) :
    saturatingAdd a 1 = min (b + 1) wordMax := by
  unfold saturatingAdd
  omega

/-! ## Pushes -/

/-- What `push_lossy` does. -/
theorem pushLossy_cases (message : ChildMessage) (o : Outbox) :
    (o.pushLossy message = ({ o with dropped := saturatingAdd o.dropped 1 }, .refused)) ∨
    (o.closed = false ∧ o.capacity ≤ o.queue.length ∧ ∃ oldest before behind,
      oldest.lossy = true ∧ o.queue = before ++ oldest :: behind ∧
      o.pushLossy message = ({ o with
        queue := before ++ behind ++ [message]
        dropped := saturatingAdd o.dropped 1 }, .keptFor oldest)) ∨
    (o.closed = false ∧ o.queue.length < o.capacity ∧
      o.pushLossy message = ({ o with queue := o.queue ++ [message] }, .kept)) := by
  unfold Outbox.pushLossy
  split
  · exact Or.inl rfl
  · next hclosed =>
    have hopen : o.closed = false := Bool.not_eq_true _ ▸ hclosed
    split
    · exact Or.inl rfl
    · split
      · next hfull =>
        split
        · exact Or.inl rfl
        · next oldest hfind =>
          obtain ⟨hlossy, before, behind, hqueue, herase⟩ := evict_cases hfind
          rw [herase]
          exact Or.inr (Or.inl ⟨hopen, hfull, oldest, before, behind, hlossy, hqueue, rfl⟩)
      · next hroom => exact Or.inr (Or.inr ⟨hopen, Nat.lt_of_not_le hroom, rfl⟩)

/-- What `push_blocking` does, once it need not wait. -/
theorem pushBlocking_cases {o o' : Outbox} (h : o.pushBlocking message = some (o', ok)) :
    (ok = false ∧ o' = o ∧ (o.capacity = 0 ∨ o.closed = true)) ∨
    (ok = true ∧ o.closed = false ∧ o.queue.length < o.capacity ∧
      o' = { o with queue := o.queue ++ [message] }) := by
  unfold Outbox.pushBlocking at h
  split at h
  · next hcapacity =>
    obtain ⟨rfl, rfl⟩ := Prod.mk.inj (Option.some.inj h)
    exact Or.inl ⟨rfl, rfl, Or.inl hcapacity⟩
  · split at h
    · next hclosed =>
      obtain ⟨rfl, rfl⟩ := Prod.mk.inj (Option.some.inj h)
      exact Or.inl ⟨rfl, rfl, Or.inr hclosed⟩
    · next hclosed =>
      split at h
      · cases h
      · next hroom =>
        obtain ⟨rfl, rfl⟩ := Prod.mk.inj (Option.some.inj h)
        exact Or.inr ⟨rfl, Bool.not_eq_true _ ▸ hclosed, Nat.lt_of_not_le hroom, rfl⟩

/-- A message more, at the end of both. -/
theorem Sending.Inv.push (h : s.Inv) (hopen : s.outbox.closed = false)
    (hroom : s.outbox.queue.length < s.outbox.capacity) :
    Sending.Inv { s with
      outbox.queue := s.outbox.queue ++ [message]
      log.accepted := s.log.accepted ++ [message] } where
  bounded := by
    simp only [List.length_append, List.length_cons, List.length_nil]
    omega
  order := by
    rw [← List.append_assoc]
    exact h.order.append (List.Sublist.refl _)
  kept := by rw [← List.append_assoc, List.filter_append, h.kept, List.filter_append]
  given := by
    refine (h.given.append_right [message]).trans ?_
    rw [← List.append_assoc, List.append_assoc _ s.log.evicted, List.append_assoc _ [message]]
    exact List.perm_append_comm.append_left _
  spared := h.spared
  counted := h.counted
  stage := by
    refine h.stage.of_eq rfl rfl rfl rfl rfl rfl id fun hclosed => ?_
    rw [hopen] at hclosed
    cases hclosed

theorem Sending.Inv.pushLossy (h : s.Inv) (hlossy : message.lossy = true) :
    (s.pushLossy message).Inv := by
  unfold Sending.pushLossy
  rcases pushLossy_cases message s.outbox with heq | ⟨hopen, hfull, oldest, before, behind, hold,
    hqueue, heq⟩ | ⟨hopen, hroom, heq⟩
  · rw [heq]
    exact
      { bounded := h.bounded
        order := h.order
        kept := h.kept
        given := h.given
        spared := by
          intro m hm
          simp only [List.mem_append, List.mem_cons, List.not_mem_nil, or_false] at hm
          rcases hm with hm | hm | rfl
          · exact h.spared m (List.mem_append_left _ hm)
          · exact h.spared m (List.mem_append_right _ hm)
          · exact hlossy
        counted := by
          refine (saturating_counted h.counted).trans ?_
          simp only [List.length_append, List.length_cons, List.length_nil]
          congr 1
          omega
        stage := h.stage.of_eq rfl rfl rfl rfl rfl rfl id fun _ => rfl }
  · -- the evicted message is one of those that waited
    rw [heq]
    have hlasting : oldest.lasting = false := by simp [ChildMessage.lasting, hold]
    exact
      { bounded := by
          have := h.bounded
          rw [hqueue] at this
          simp only [List.length_append, List.length_cons, List.length_nil] at this ⊢
          omega
        order := by
          have := h.order
          rw [hqueue] at this
          rw [← List.append_assoc]
          refine List.Sublist.append (List.Sublist.trans ?_ this) (List.Sublist.refl _)
          exact ((List.sublist_cons_self _ _).append_left _).append_left _
        kept := by
          have := h.kept
          rw [hqueue] at this
          rw [List.filter_append _ [message], ← this]
          simp [hlasting]
        given := by
          refine (h.given.append_right [message]).trans ?_
          rw [hqueue, List.perm_iff_count]
          intro m
          simp only [List.count_append, List.count_cons, List.count_nil]
          omega
        spared := by
          intro m hm
          simp only [List.mem_append, List.mem_cons, List.not_mem_nil, or_false] at hm
          rcases hm with (hm | rfl) | hm
          · exact h.spared m (List.mem_append_left _ hm)
          · exact hold
          · exact h.spared m (List.mem_append_right _ hm)
        counted := by
          refine (saturating_counted h.counted).trans ?_
          simp only [List.length_append, List.length_cons, List.length_nil]
          congr 1
        stage := by
          refine h.stage.of_eq rfl rfl rfl rfl rfl rfl id fun hclosed => ?_
          rw [hopen] at hclosed
          cases hclosed }
  · rw [heq]
    exact h.push hopen hroom

theorem Sending.Inv.pushBlocking (h : s.Inv) (hp : s.pushBlocking message = some (s', ok)) :
    s'.Inv := by
  unfold Sending.pushBlocking at hp
  obtain ⟨⟨o, ok'⟩, hpush, heq⟩ := Option.map_eq_some_iff.1 hp
  obtain ⟨rfl, rfl⟩ := Prod.mk.inj heq
  rcases pushBlocking_cases hpush with ⟨rfl, rfl, -⟩ | ⟨rfl, hopen, hroom, rfl⟩
  · exact h
  · exact h.push hopen hroom

theorem Sending.Inv.close (h : s.Inv) : s.close.Inv :=
  { bounded := h.bounded
    order := h.order
    kept := h.kept
    given := h.given
    spared := h.spared
    counted := h.counted
    stage := h.stage.of_eq rfl rfl rfl rfl rfl rfl (fun _ => rfl) fun _ => rfl }

/-! ## The writer -/

/-- What `take_batch` does, once it need not wait. -/
theorem takeBatch_cases {o o' : Outbox} {batch : Option (List ChildMessage)}
    (h : o.takeBatch = some (o', batch)) :
    (o.queue = [] ∧ o.closed = true ∧ o' = o ∧ batch = none) ∨
    ∃ taken left, taken ≠ [] ∧ taken.length ≤ maxBatch ∧ o.queue = taken ++ left ∧
      batch = some taken ∧
      o' = { o with queue := left, inFlight := saturatingAdd o.inFlight taken.length } := by
  unfold Outbox.takeBatch at h
  split at h
  · next hempty =>
    split at h
    · next hclosed =>
      obtain ⟨rfl, rfl⟩ := Prod.mk.inj (Option.some.inj h)
      exact Or.inl ⟨hempty, hclosed, rfl, rfl⟩
    · cases h
  · next hsome =>
    obtain ⟨rfl, rfl⟩ := Prod.mk.inj (Option.some.inj h)
    refine Or.inr ⟨_, _, ?_, List.length_take_le _ _, (List.take_append_drop _ _).symm, rfl, rfl⟩
    intro hnil
    rw [List.take_eq_nil_iff] at hnil
    exact hnil.elim (by decide) hsome

theorem Sending.Inv.of_survivors (h : s.Inv)
    (hsame : s'.log.handed ++ s'.outbox.queue = s.log.handed ++ s.outbox.queue)
    (hlength : s'.outbox.queue.length ≤ s.outbox.queue.length)
    (hcapacity : s'.outbox.capacity = s.outbox.capacity)
    (haccepted : s'.log.accepted = s.log.accepted) (hevicted : s'.log.evicted = s.log.evicted)
    (hrefused : s'.log.refused = s.log.refused) (hdropped : s'.outbox.dropped = s.outbox.dropped)
    (hstage : s'.Stage) : s'.Inv where
  bounded := hcapacity ▸ Nat.le_trans hlength h.bounded
  order := by rw [hsame, haccepted]; exact h.order
  kept := by rw [hsame, haccepted]; exact h.kept
  given := by rw [hsame, haccepted, hevicted]; exact h.given
  spared := by rw [hevicted, hrefused]; exact h.spared
  counted := by rw [hdropped, hrefused, hevicted]; exact h.counted
  stage := hstage

theorem Sending.Inv.takes (h : s.Inv) (ht : s.takes = some s') : s'.Inv := by
  have hstage := h.stage
  unfold Sending.Stage at hstage
  unfold Sending.takes at ht
  cases hwriter : s.writer with
  | taking =>
    rw [hwriter] at ht hstage
    obtain ⟨hflight, hwritten, hfailed, hstopped⟩ := hstage
    obtain ⟨⟨o, batch⟩, htake, heq⟩ := Option.map_eq_some_iff.1 ht
    rcases takeBatch_cases htake with ⟨hempty, hclosed, rfl, rfl⟩ |
      ⟨taken, left, hne, hlen, hqueue, rfl, rfl⟩
    · obtain rfl := heq
      refine h.of_survivors rfl (Nat.le_refl _) rfl rfl rfl rfl rfl ⟨hstopped, Or.inl ?_⟩
      exact ⟨hfailed, hflight, hwritten, hempty, hclosed⟩
    · obtain rfl := heq
      refine h.of_survivors ?_ ?_ rfl rfl rfl rfl rfl ⟨?_, hne, ?_, hfailed, hstopped⟩
      · rw [hqueue, ← List.append_assoc]
      · rw [hqueue, List.length_append]
        exact Nat.le_add_left _ _
      · unfold maxBatch at hlen
        unfold saturatingAdd wordMax
        rw [hflight]
        dsimp only
        omega
      · exact congrArg (· ++ taken) hwritten
  | _ => rw [hwriter] at ht; cases ht

theorem Sending.Inv.writes (h : s.Inv) (ht : s.writes ok = some s') : s'.Inv := by
  have hstage := h.stage
  unfold Sending.Stage at hstage
  unfold Sending.writes at ht
  cases hwriter : s.writer with
  | writing batch =>
    rw [hwriter] at ht hstage
    obtain ⟨hflight, hne, hwritten, hfailed, hstopped⟩ := hstage
    dsimp only at ht
    split at ht
    · obtain rfl := Option.some.inj ht
      refine h.of_survivors rfl (Nat.le_refl _) rfl rfl rfl rfl rfl ?_
      exact ⟨hflight, hwritten, hfailed, hstopped⟩
    · obtain rfl := Option.some.inj ht
      refine h.of_survivors rfl (Nat.le_refl _) rfl rfl rfl rfl rfl ⟨hstopped, Or.inr ?_⟩
      refine ⟨rfl, fun hzero => hne ?_, batch, hne, hwritten⟩
      exact List.length_eq_zero_iff.1 (hflight.symm.trans hzero)
  | _ => rw [hwriter] at ht; cases ht

theorem Sending.Inv.reports (h : s.Inv) (ht : s.reports = some s') : s'.Inv := by
  have hstage := h.stage
  unfold Sending.Stage at hstage
  unfold Sending.reports at ht
  cases hwriter : s.writer with
  | reporting count =>
    rw [hwriter] at ht hstage
    obtain ⟨hflight, hwritten, hfailed, hstopped⟩ := hstage
    obtain rfl := Option.some.inj ht
    refine h.of_survivors rfl (Nat.le_refl _) rfl rfl rfl rfl rfl ⟨?_, hwritten, hfailed, hstopped⟩
    exact Nat.sub_eq_zero_of_le (Nat.le_of_eq hflight)
  | _ => rw [hwriter] at ht; cases ht

theorem Sending.Inv.stops (h : s.Inv) (ht : s.stops = some s') : s'.Inv := by
  have hstage := h.stage
  unfold Sending.Stage at hstage
  unfold Sending.stops at ht
  cases hwriter : s.writer with
  | stopping =>
    rw [hwriter] at ht hstage
    obtain ⟨-, hend⟩ := hstage
    obtain rfl := Option.some.inj ht
    refine h.of_survivors rfl (Nat.le_refl _) rfl rfl rfl rfl rfl ⟨rfl, hend.imp ?_ id⟩
    rintro ⟨hfailed, hflight, hwritten, hempty, -⟩
    exact ⟨hfailed, hflight, hwritten, hempty⟩
  | _ => rw [hwriter] at ht; cases ht

/-! ## Every step -/

/-- What may happen to the outbox and its writer. -/
inductive Sending.Move (s : Sending) : Sending → Prop
  | lossy {message : ChildMessage} : message.lossy = true → Move s (s.pushLossy message)
  | blocking {message : ChildMessage} {s' : Sending} {ok : Bool} :
      s.pushBlocking message = some (s', ok) → Move s s'
  | close : Move s s.close
  | takes {s' : Sending} : s.takes = some s' → Move s s'
  | writes {s' : Sending} {ok : Bool} : s.writes ok = some s' → Move s s'
  | reports {s' : Sending} : s.reports = some s' → Move s s'
  | stops {s' : Sending} : s.stops = some s' → Move s s'

theorem Sending.Inv.move (h : s.Inv) (hm : s.Move s') : s'.Inv := by
  cases hm with
  | lossy hlossy => exact h.pushLossy hlossy
  | blocking hp => exact h.pushBlocking hp
  | close => exact h.close
  | takes ht => exact h.takes ht
  | writes ht => exact h.writes ht
  | reports ht => exact h.reports ht
  | stops ht => exact h.stops ht

variable {c c' : Served} {event : Event}

/-- What the reader and its threads may do. -/
inductive Served.Talk (c : Served) : Served → Prop
  | shutdown {handlers : List ℕ} : c.reader = .reading handlers →
      Talk c { c with reader := .joining (handlers.filter fun thread => !c.isFinished thread) }
  | action {handlers : List ℕ} {name : String} {params caller : Option String} {id : UInt64} :
      c.reader = .reading handlers →
      Talk c { c with
        reader := .resolving (handlers.filter fun thread => !c.isFinished thread)
          (.action name params caller id)
        actions := c.actions ++ [(name, id)] }
  | signalled {handlers : List ℕ} : c.reader = .reading handlers →
      Talk c { c with
        reader := .resolving (handlers.filter fun thread => !c.isFinished thread) .lambSignalled }
  | malformed {warned : List String} {warnedMalformed : Bool} :
      Talk c { c with warned, warnedMalformed }
  | ended {handlers : List ℕ} : c.reader = .reading handlers →
      Talk c { c with reader := .ending handlers }
  | joined {handlers : List ℕ} : c.reader = .joining handlers →
      handlers.all c.isFinished = true → Talk c { c with reader := .resolving [] .shutdown }
  | ends {handlers : List ℕ} : c.reader = .ending handlers →
      handlers.all c.isFinished = true → Talk c { c with reader := .closing }
  | spawned {handlers : List ℕ} {message : ShepherdMessage} : c.reader = .resolving handlers message →
      Talk c { c with
        reader := .reading (handlers ++ [c.handlers.length])
        handlers := c.handlers ++ [.running (c.dispatch.resolve message)] }
  | kept {handlers : List ℕ} {message : ShepherdMessage} : c.reader = .resolving handlers message →
      Talk c { c with reader := .answering handlers (c.dispatch.resolve message) }
  | answered {handlers : List ℕ} {resolved : Resolved} {called : Called} {reply : ChildMessage} :
      c.reader = .answering handlers resolved → run resolved called = .reply reply →
      Talk c { c with reader := .replying handlers reply }
  | silent {handlers : List ℕ} {resolved : Resolved} {called : Called} {warned : List String} :
      c.reader = .answering handlers resolved → (∀ reply, run resolved called ≠ .reply reply) →
      Talk c { c with reader := .reading handlers, warned }
  | replied {handlers : List ℕ} {reply : ChildMessage} {sending : Sending} {ok : Bool} :
      c.reader = .replying handlers reply → c.sending.pushBlocking reply = some (sending, ok) →
      Talk c { c with
        sending, replied := c.replied ++ [(reply, ok)]
        reader := if ok then .reading handlers else .ending handlers }
  | closes : c.reader = .closing → Talk c { c with sending := c.sending.close, reader := .done }
  | handled {thread : ℕ} {resolved : Resolved} {called : Called} {reply : ChildMessage} :
      c.handlers[thread]? = some (.running resolved) → run resolved called = .reply reply →
      Talk c { c with handlers := c.handlers.set thread (.replying reply) }
  | spent {thread : ℕ} {resolved : Resolved} {called : Called} :
      c.handlers[thread]? = some (.running resolved) →
      (∀ reply, run resolved called ≠ .reply reply) →
      Talk c { c with handlers := c.handlers.set thread .finished }
  | handlerReplied {thread : ℕ} {reply : ChildMessage} {sending : Sending} {ok : Bool} :
      c.handlers[thread]? = some (.replying reply) →
      c.sending.pushBlocking reply = some (sending, ok) →
      Talk c { c with
        sending, replied := c.replied ++ [(reply, ok)]
        handlers := c.handlers.set thread .finished }

/-- A step of the app or of the writer. -/
def Served.Elsewhere (c c' : Served) : Prop :=
  ∃ sending dispatch, c' = { c with sending, dispatch } ∧
    (sending = c.sending ∨ c.sending.Move sending)

theorem pushReply_cases {reply : ChildMessage} (h : c.pushReply reply = some (c', ok)) :
    ∃ sending, c.sending.pushBlocking reply = some (sending, ok) ∧
      c' = { c with sending, replied := c.replied ++ [(reply, ok)] } := by
  unfold Served.pushReply at h
  obtain ⟨⟨sending, ok'⟩, hpush, heq⟩ := Option.map_eq_some_iff.1 h
  obtain ⟨rfl, rfl⟩ := Prod.mk.inj heq
  exact ⟨sending, hpush, rfl⟩

theorem talk_of_reads {frame : Frame} (h : c.reads frame = some c') : c.Talk c' := by
  unfold Served.reads at h
  split at h
  · next handlers hreader =>
    cases frame with
    | message message =>
      cases message with
      | shutdown =>
        obtain rfl := Option.some.inj h
        exact .shutdown hreader
      | action name params caller id =>
        obtain rfl := Option.some.inj h
        exact .action hreader
      | lambSignalled =>
        obtain rfl := Option.some.inj h
        exact .signalled hreader
    | malformed =>
      dsimp only at h
      split at h
      · obtain rfl := Option.some.inj h
        exact .malformed
      · obtain rfl := Option.some.inj h
        exact .malformed
    | ended =>
      obtain rfl := Option.some.inj h
      exact .ended hreader
  · cases h

theorem talk_of_joins (h : c.joins = some c') : c.Talk c' := by
  unfold Served.joins at h
  split at h
  · next handlers hreader =>
    split at h
    · next hall =>
      obtain rfl := Option.some.inj h
      exact .joined hreader hall
    · cases h
  · next handlers hreader =>
    split at h
    · next hall =>
      obtain rfl := Option.some.inj h
      exact .ends hreader hall
    · cases h
  · cases h

theorem talk_of_resolves {spawned : Bool} (h : c.resolves spawned = some c') : c.Talk c' := by
  unfold Served.resolves at h
  split at h
  · next handlers message hreader =>
    dsimp only at h
    split at h
    · obtain rfl := Option.some.inj h
      exact .spawned hreader
    · obtain rfl := Option.some.inj h
      exact .kept hreader
  · cases h

theorem talk_of_answers {called : Called} (h : c.answers called = some c') : c.Talk c' := by
  unfold Served.answers at h
  split at h
  · next handlers resolved hreader =>
    cases hrun : run resolved called with
    | reply reply =>
      rw [hrun] at h
      obtain rfl := Option.some.inj h
      exact .answered hreader hrun
    | _ =>
      rw [hrun] at h
      obtain rfl := Option.some.inj h
      exact .silent hreader fun reply heq => by rw [hrun] at heq; cases heq
  · cases h

theorem talk_of_replies (h : c.replies = some c') : c.Talk c' := by
  unfold Served.replies at h
  split at h
  · next handlers reply hreader =>
    obtain ⟨⟨c₁, ok⟩, hpush, rfl⟩ := Option.map_eq_some_iff.1 h
    obtain ⟨sending, hs, rfl⟩ := pushReply_cases hpush
    exact .replied hreader hs
  · cases h

theorem talk_of_handles {thread : ℕ} {called : Called} (h : c.handles thread called = some c') :
    c.Talk c' := by
  unfold Served.handles at h
  split at h
  · next resolved hthread =>
    obtain rfl := Option.some.inj h
    cases hrun : run resolved called with
    | reply reply => exact .handled hthread hrun
    | _ => exact .spent hthread fun reply heq => by rw [hrun] at heq; cases heq
  · cases h

theorem talk_of_handlerReplies {thread : ℕ} (h : c.handlerReplies thread = some c') :
    c.Talk c' := by
  unfold Served.handlerReplies at h
  split at h
  · next reply hthread =>
    obtain ⟨⟨c₁, ok⟩, hpush, rfl⟩ := Option.map_eq_some_iff.1 h
    obtain ⟨sending, hs, rfl⟩ := pushReply_cases hpush
    exact .handlerReplied hthread hs
  · cases h

/-- **Every step is the app's or the writer's, or the reader's side.** -/
theorem step_cases (h : c.Step event c') : c.Elsewhere c' ∨ c.Talk c' := by
  unfold Served.Step Served.act at h
  cases event with
  | lossy message =>
    dsimp only at h
    split at h
    · next hlossy =>
      obtain rfl := Option.some.inj h
      exact Or.inl ⟨_, _, rfl, Or.inr (.lossy hlossy)⟩
    · cases h
  | blocking message =>
    dsimp only at h
    split at h
    · obtain ⟨⟨sending, ok⟩, hpush, rfl⟩ := Option.map_eq_some_iff.1 h
      exact Or.inl ⟨_, _, rfl, Or.inr (.blocking hpush)⟩
    · obtain ⟨⟨sending, ok⟩, hpush, rfl⟩ := Option.map_eq_some_iff.1 h
      exact Or.inl ⟨_, _, rfl, Or.inr (.blocking hpush)⟩
    · cases h
  | onAction name | onShutdown =>
    obtain rfl := Option.some.inj h
    exact Or.inl ⟨_, _, rfl, Or.inl rfl⟩
  | close =>
    obtain rfl := Option.some.inj h
    exact Or.inl ⟨_, _, rfl, Or.inr .close⟩
  | take =>
    obtain ⟨sending, hs, rfl⟩ := Option.map_eq_some_iff.1 h
    exact Or.inl ⟨_, _, rfl, Or.inr (.takes hs)⟩
  | write ok =>
    obtain ⟨sending, hs, rfl⟩ := Option.map_eq_some_iff.1 h
    exact Or.inl ⟨_, _, rfl, Or.inr (.writes hs)⟩
  | wrote =>
    obtain ⟨sending, hs, rfl⟩ := Option.map_eq_some_iff.1 h
    exact Or.inl ⟨_, _, rfl, Or.inr (.reports hs)⟩
  | stop =>
    obtain ⟨sending, hs, rfl⟩ := Option.map_eq_some_iff.1 h
    exact Or.inl ⟨_, _, rfl, Or.inr (.stops hs)⟩
  | read frame => exact Or.inr (talk_of_reads h)
  | join => exact Or.inr (talk_of_joins h)
  | resolve spawned => exact Or.inr (talk_of_resolves h)
  | answer called => exact Or.inr (talk_of_answers h)
  | reply => exact Or.inr (talk_of_replies h)
  | readerClose =>
    dsimp only [Served.readerCloses] at h
    split at h
    · next hreader =>
      obtain rfl := Option.some.inj h
      exact Or.inr (.closes hreader)
    · cases h
  | handle thread called => exact Or.inr (talk_of_handles h)
  | handlerReply thread => exact Or.inr (talk_of_handlerReplies h)

theorem sending_moves (h : c.Step event c') :
    c'.sending = c.sending ∨ c.sending.Move c'.sending := by
  rcases step_cases h with ⟨sending, dispatch, rfl, hs⟩ | ht
  · exact hs
  · cases ht with
    | replied hreader hpush => exact Or.inr (.blocking hpush)
    | handlerReplied hthread hpush => exact Or.inr (.blocking hpush)
    | closes hreader => exact Or.inr .close
    | _ => exact Or.inl rfl

theorem inv_run {capacity : ℕ} {h : List (Served × Event)}
    (hr : Run Served.Step (.serve capacity) h c) : c.sending.Inv := by
  refine hr.invariant (P := fun c => c.sending.Inv) meets_true (inv_new capacity)
    fun c event c' hinv _ hstep => ?_
  rcases sending_moves hstep with heq | hmove
  · exact heq ▸ hinv
  · exact hinv.move hmove

end Channel

end Shep
