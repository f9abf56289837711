import Shep.Channel.Delivered

/-!
# Channel — what is delivered, and what is answered

`Served.Talks` follows every action read to its reply: it is with the
reader, with one of the threads whose handles the reader holds, or pushed
under its own name and id. **`served_exact`** says of every run what becomes
of the messages, what a drain may answer, and that the reader closes the
outbox only once every action it has read has had its reply pushed.

`reply_refused` is a run in which such a push is refused: a write has failed
and the writer has stopped.
-/

namespace Shep

namespace Channel

variable {c c' : Served} {event : Event} {s s' : Sending} {ok : Bool}

/-! ## The actions on their way -/

/-- What an action is known by. -/
abbrev ActionKey := String × Option UInt64

/-- The action a reply answers. -/
def ChildMessage.answers : ChildMessage → Option ActionKey
  | .actionReply action _ id => some (action, id)
  | _ => none

/-- The action that was resolved. -/
def Resolved.action? : Resolved → Option ActionKey
  | .action name _ _ id | .unknownAction name id => some (name, some id)
  | .shutdown | .unhandledShutdown | .ignored => none

/-- The action a message is. -/
def ShepherdMessage.action? : ShepherdMessage → Option ActionKey
  | .action name _ _ id => some (name, some id)
  | .shutdown | .lambSignalled => none

/-- The action a thread has still to answer. -/
def Handler.owes : Handler → Option ActionKey
  | .running resolved => resolved.action?
  | .replying reply => reply.answers
  | .finished => none

/-- The action the reader itself has still to answer. -/
def Reader.owes : Reader → Option ActionKey
  | .resolving _ message => message.action?
  | .answering _ resolved => resolved.action?
  | .replying _ reply => reply.answers
  | _ => none

/-- The threads the reader holds the handles of. -/
def Reader.held : Reader → List ℕ
  | .reading handlers | .joining handlers | .resolving handlers _ | .answering handlers _
  | .replying handlers _ | .ending handlers => handlers
  | .closing | .done => []

@[simp] theorem resolve_action? (dispatch : Dispatch) (message : ShepherdMessage) :
    (dispatch.resolve message).action? = message.action? := by
  cases message with
  | shutdown | action name params caller id => unfold Dispatch.resolve; dsimp only; split <;> rfl
  | lambSignalled => rfl

/-- **A reply goes out under its own action's name and id**, and every
action is replied to. -/
theorem run_answers {resolved : Resolved} {called : Called} :
    (∀ reply, run resolved called = .reply reply →
        reply.answers = resolved.action? ∧ reply.answers.isSome = true) ∧
      ((∀ reply, run resolved called ≠ .reply reply) → resolved.action? = none) := by
  cases resolved with
  | action name params caller id | unknownAction name id =>
    exact ⟨fun reply h => by rw [← Outcome.reply.inj h]; exact ⟨rfl, rfl⟩,
      fun h => absurd rfl (h _)⟩
  | shutdown => cases called <;> exact ⟨fun reply h => (nomatch h), fun _ => rfl⟩
  | unhandledShutdown | ignored => exact ⟨fun reply h => (nomatch h), fun _ => rfl⟩

theorem set_cases {handlers : List Handler} {thread : ℕ} {handler : Handler}
    (h : handlers[thread]? = some handler) : ∃ before behind,
      handlers = before ++ handler :: behind ∧
      ∀ other, handlers.set thread other = before ++ other :: behind := by
  obtain ⟨hlt, rfl⟩ := List.getElem?_eq_some_iff.1 h
  refine ⟨handlers.take thread, handlers.drop (thread + 1), ?_, fun other => ?_⟩
  · rw [List.getElem_cons_drop, List.take_append_drop]
  · rw [List.set_eq_take_append_cons_drop, if_pos hlt]

/-! ## What a move leaves of the outbox -/

theorem pushBlocking_sending {message : ChildMessage}
    (h : s.pushBlocking message = some (s', ok)) :
    (ok = false ∧ s' = s ∧ (s.outbox.capacity = 0 ∨ s.outbox.closed = true)) ∨
    (ok = true ∧ s'.log.accepted = s.log.accepted ++ [message] ∧
      s'.outbox.capacity = s.outbox.capacity ∧ s'.outbox.closed = s.outbox.closed) := by
  unfold Sending.pushBlocking at h
  obtain ⟨⟨o, ok'⟩, hpush, heq⟩ := Option.map_eq_some_iff.1 h
  obtain ⟨rfl, rfl⟩ := Prod.mk.inj heq
  rcases pushBlocking_cases hpush with ⟨rfl, rfl, hwhy⟩ | ⟨rfl, hopen, hroom, rfl⟩
  · exact Or.inl ⟨rfl, rfl, hwhy⟩
  · exact Or.inr ⟨rfl, rfl, rfl, rfl⟩

/-- Nothing accepted is forgotten, and an outbox that is closed stays so. -/
structure Sending.Grows (s s' : Sending) : Prop where
  accepted : s.log.accepted.Sublist s'.log.accepted
  capacity : s'.outbox.capacity = s.outbox.capacity
  closed : s.outbox.closed = true → s'.outbox.closed = true

theorem Sending.Grows.refl (s : Sending) : s.Grows s := ⟨List.Sublist.refl _, rfl, id⟩

theorem Sending.Move.grows (hm : s.Move s') : s.Grows s' := by
  cases hm with
  | @lossy message hlossy =>
    unfold Sending.pushLossy
    rcases pushLossy_cases message s.outbox with heq | ⟨-, -, oldest, before, behind, -, -, heq⟩ |
      ⟨-, -, heq⟩ <;> rw [heq]
    · exact ⟨List.Sublist.refl _, rfl, id⟩
    · exact ⟨List.sublist_append_left _ _, rfl, id⟩
    · exact ⟨List.sublist_append_left _ _, rfl, id⟩
  | blocking hp =>
    rcases pushBlocking_sending hp with ⟨-, rfl, -⟩ | ⟨-, hacc, hcap, hclosed⟩
    · exact .refl _
    · exact ⟨hacc ▸ List.sublist_append_left _ _, hcap, fun h => hclosed.trans h⟩
  | close => exact ⟨List.Sublist.refl _, rfl, fun _ => rfl⟩
  | takes ht =>
    unfold Sending.takes at ht
    split at ht
    · obtain ⟨⟨o, batch⟩, htake, rfl⟩ := Option.map_eq_some_iff.1 ht
      rcases takeBatch_cases htake with ⟨-, -, rfl, rfl⟩ | ⟨taken, left, -, -, -, rfl, rfl⟩ <;>
        exact ⟨List.Sublist.refl _, rfl, id⟩
    · cases ht
  | writes ht =>
    unfold Sending.writes at ht
    split at ht
    · split at ht <;> obtain rfl := Option.some.inj ht <;> exact ⟨List.Sublist.refl _, rfl, id⟩
    · cases ht
  | reports ht =>
    unfold Sending.reports at ht
    split at ht
    · obtain rfl := Option.some.inj ht
      exact ⟨List.Sublist.refl _, rfl, id⟩
    · cases ht
  | stops ht =>
    unfold Sending.stops at ht
    split at ht
    · obtain rfl := Option.some.inj ht
      exact ⟨List.Sublist.refl _, rfl, fun _ => rfl⟩
    · cases ht

/-! ## Every action to its reply -/

/-- Where the actions read are. -/
structure Served.Talks (c : Served) : Prop where
  answered : (c.actions.map fun action => (action.1, some action.2)).Perm
    (c.replied.filterMap (fun reply => reply.1.answers) ++ c.handlers.filterMap Handler.owes ++
      c.reader.owes.toList)
  held : ∀ thread handler, c.handlers[thread]? = some handler → handler ≠ .finished →
    thread ∈ c.reader.held
  voiced : (∀ reply, .replying reply ∈ c.handlers → reply.answers.isSome = true) ∧
    ∀ handlers reply, c.reader = .replying handlers reply → reply.answers.isSome = true
  named : ∀ reply ∈ c.replied, reply.1.answers.isSome = true
  accepted : ((c.replied.filter Prod.snd).map Prod.fst).Sublist c.sending.log.accepted
  refused : ∀ reply ∈ c.replied, reply.2 = false →
    c.sending.outbox.capacity = 0 ∨ c.sending.outbox.closed = true

theorem talks_serve (capacity : ℕ) : (Served.serve capacity).Talks where
  answered := .nil
  held := fun thread handler h => by simp [Served.serve] at h
  voiced := ⟨fun reply h => (List.not_mem_nil h).elim, fun handlers reply h => (nomatch h)⟩
  named := List.forall_mem_nil _
  accepted := .slnil
  refused := List.forall_mem_nil _

theorem Served.Talks.elsewhere (h : c.Talks) (he : c.Elsewhere c') : c'.Talks := by
  obtain ⟨sending, dispatch, rfl, hs⟩ := he
  have hgrows : c.sending.Grows sending := by
    rcases hs with rfl | hmove
    · exact .refl _
    · exact hmove.grows
  exact
    { answered := h.answered
      held := h.held
      voiced := h.voiced
      named := h.named
      accepted := h.accepted.trans hgrows.accepted
      refused := fun reply hr hok =>
        (h.refused reply hr hok).imp (fun hc => hgrows.capacity.trans hc) hgrows.closed }

/-- A reply pushed: it is on record, and accepted unless nothing more is. -/
theorem Served.Talks.pushed {sending : Sending} {reply : ChildMessage} {reader : Reader}
    {handlers : List Handler} (h : c.Talks)
    (hp : c.sending.pushBlocking reply = some (sending, ok)) (hvoiced : reply.answers.isSome = true)
    (howed : (c.handlers.filterMap Handler.owes ++ c.reader.owes.toList).Perm
      (reply.answers.toList ++ (handlers.filterMap Handler.owes ++ reader.owes.toList)))
    (hheld : ∀ thread handler, handlers[thread]? = some handler → handler ≠ .finished →
      thread ∈ reader.held)
    (hvoices : (∀ reply, .replying reply ∈ handlers → reply.answers.isSome = true) ∧
      ∀ threads reply, reader = .replying threads reply → reply.answers.isSome = true) :
    Served.Talks { c with sending, reader, handlers, replied := c.replied ++ [(reply, ok)] } where
  answered := by
    refine h.answered.trans ?_
    obtain ⟨key, hkey⟩ := Option.isSome_iff_exists.1 hvoiced
    rw [List.filterMap_append, List.append_assoc, List.append_assoc, List.append_assoc]
    refine List.Perm.append_left _ (howed.trans ?_)
    rw [hkey]
    simp [hkey]
  held := hheld
  voiced := hvoices
  named := by
    intro r hr
    rcases List.mem_append.1 hr with hr | hr
    · exact h.named r hr
    · rw [List.mem_singleton.1 hr]
      exact hvoiced
  accepted := by
    rcases pushBlocking_sending hp with ⟨rfl, rfl, -⟩ | ⟨rfl, hacc, -, -⟩
    · simpa using h.accepted
    · rw [hacc]
      simpa using h.accepted.append (List.Sublist.refl [reply])
  refused := by
    intro r hr hok
    rcases pushBlocking_sending hp with ⟨rfl, rfl, hwhy⟩ | ⟨rfl, -, hcap, hclosed⟩
    · exact hwhy
    · rcases List.mem_append.1 hr with hr | hr
      · exact (h.refused r hr hok).imp (fun hc => hcap.trans hc) fun hc => hclosed.trans hc
      · rw [List.mem_singleton.1 hr] at hok
        cases hok

/-- The threads that have not ended are among those the handles are kept
of. -/
theorem mem_unfinished {handlers : List ℕ} {thread : ℕ} {handler : Handler}
    (hmem : thread ∈ handlers) (hthread : c.handlers[thread]? = some handler)
    (hne : handler ≠ .finished) : thread ∈ handlers.filter fun thread => !c.isFinished thread := by
  refine List.mem_filter.2 ⟨hmem, ?_⟩
  unfold Served.isFinished
  rw [hthread]
  simpa using hne

theorem Served.Talks.none_left {handlers : List ℕ} (h : c.Talks) (hheld : c.reader.held = handlers)
    (hall : handlers.all c.isFinished = true) {thread : ℕ} {handler : Handler}
    (hthread : c.handlers[thread]? = some handler) : handler = .finished := by
  by_contra hne
  have hmem := h.held thread handler hthread hne
  rw [hheld] at hmem
  have hdone := List.all_eq_true.1 hall thread hmem
  unfold Served.isFinished at hdone
  rw [hthread] at hdone
  exact hne (by simpa using hdone)

theorem Served.Talks.turn {reader : Reader} (h : c.Talks) (howes : reader.owes = c.reader.owes)
    (hheld : ∀ thread handler, c.handlers[thread]? = some handler → handler ≠ .finished →
      thread ∈ reader.held)
    (hvoiced : ∀ handlers reply, reader = .replying handlers reply → reply.answers.isSome = true)
    {warned : List String} {warnedMalformed : Bool} :
    Served.Talks { c with reader, warned, warnedMalformed } where
  answered := howes.symm ▸ h.answered
  held := hheld
  voiced := ⟨h.voiced.1, hvoiced⟩
  named := h.named
  accepted := h.accepted
  refused := h.refused

theorem Served.Talks.held_set {thread : ℕ} {handler after : Handler} (h : c.Talks)
    (hthread : c.handlers[thread]? = some handler) (hne : handler ≠ .finished) :
    ∀ other found, (c.handlers.set thread after)[other]? = some found → found ≠ .finished →
      other ∈ c.reader.held := by
  intro other found hother hfound
  by_cases heq : thread = other
  · subst heq
    exact h.held thread handler hthread hne
  · rw [List.getElem?_set_ne heq] at hother
    exact h.held other found hother hfound

theorem mem_set {handlers : List Handler} {thread : ℕ} {handler after : Handler}
    (h : handler ∈ handlers.set thread after) : handler = after ∨ handler ∈ handlers :=
  (List.mem_or_eq_of_mem_set h).symm

/-- A thread moves on with what it owes. -/
theorem Served.Talks.move {thread : ℕ} {handler after : Handler} (h : c.Talks)
    (hthread : c.handlers[thread]? = some handler) (hne : handler ≠ .finished)
    (howes : after.owes = handler.owes)
    (hvoiced : ∀ reply, after = .replying reply → reply.answers.isSome = true) :
    Served.Talks { c with handlers := c.handlers.set thread after } where
  answered := by
    refine h.answered.trans ?_
    obtain ⟨before, behind, heq, hset⟩ := set_cases hthread
    have hsame : (c.handlers.set thread after).filterMap Handler.owes =
        c.handlers.filterMap Handler.owes := by
      rw [hset, heq, List.filterMap_append, List.filterMap_append, List.filterMap_cons,
        List.filterMap_cons, howes]
    rw [hsame]
  held := h.held_set hthread hne
  voiced := by
    refine ⟨fun reply hr => ?_, h.voiced.2⟩
    rcases mem_set hr with heq | hr
    · exact hvoiced reply heq.symm
    · exact h.voiced.1 reply hr
  named := h.named
  accepted := h.accepted
  refused := h.refused

theorem Served.Talks.talk (h : c.Talks) (ht : c.Talk c') : c'.Talks := by
  cases ht with
  | @shutdown handlers hreader | @signalled handlers hreader =>
    refine h.turn (by rw [hreader]; rfl) ?_ fun _ _ heq => by cases heq
    intro thread handler hthread hne
    have hmem := h.held thread handler hthread hne
    rw [hreader] at hmem
    exact mem_unfinished hmem hthread hne
  | @action handlers name params caller id hreader =>
    have hanswered := h.answered
    rw [hreader] at hanswered
    exact
      { answered := by
          rw [List.map_append]
          simpa [Reader.owes, ShepherdMessage.action?] using hanswered.append_right _
        held := by
          intro thread handler hthread hne
          have hmem := h.held thread handler hthread hne
          rw [hreader] at hmem
          exact mem_unfinished hmem hthread hne
        voiced := ⟨h.voiced.1, fun _ _ heq => by cases heq⟩
        named := h.named
        accepted := h.accepted
        refused := h.refused }
  | malformed => exact h.turn rfl h.held h.voiced.2
  | ended hreader =>
    refine h.turn (by rw [hreader]; rfl) ?_ fun _ _ heq => by cases heq
    intro thread handler hthread hne
    have hmem := h.held thread handler hthread hne
    rwa [hreader] at hmem
  | joined hreader hall | ends hreader hall =>
    refine h.turn (by rw [hreader]; rfl) ?_ fun _ _ heq => by cases heq
    intro thread handler hthread hne
    exact absurd (h.none_left (by rw [hreader]; rfl) hall hthread) hne
  | @spawned handlers message hreader =>
    have hanswered := h.answered
    rw [hreader] at hanswered
    exact
      { answered := by
          refine hanswered.trans ?_
          rw [List.filterMap_append, ← List.append_assoc]
          have howes : [Handler.running (c.dispatch.resolve message)].filterMap Handler.owes =
              message.action?.toList := by
            rw [← resolve_action? c.dispatch message]
            cases hkey : (c.dispatch.resolve message).action? <;> simp [Handler.owes, hkey]
          rw [howes]
          simp [Reader.owes]
        held := by
          intro thread handler hthread hne
          show thread ∈ handlers ++ [c.handlers.length]
          rcases Nat.lt_or_ge thread c.handlers.length with hlt | hge
          · rw [List.getElem?_append_left hlt] at hthread
            have hmem := h.held thread handler hthread hne
            rw [hreader] at hmem
            exact List.mem_append_left _ hmem
          · rw [List.getElem?_append_right hge] at hthread
            obtain ⟨hlt, -⟩ := List.getElem?_eq_some_iff.1 hthread
            have hlast : thread = c.handlers.length := by
              simp only [List.length_cons, List.length_nil] at hlt
              omega
            rw [hlast]
            exact List.mem_append_right _ (List.mem_singleton_self _)
        voiced := by
          refine ⟨fun reply hr => ?_, fun _ _ heq => by cases heq⟩
          rcases List.mem_append.1 hr with hr | hr
          · exact h.voiced.1 reply hr
          · cases List.mem_singleton.1 hr
        named := h.named
        accepted := h.accepted
        refused := h.refused }
  | @kept handlers message hreader =>
    refine h.turn (by rw [hreader]; exact resolve_action? _ _) ?_ fun _ _ heq => by cases heq
    intro thread handler hthread hne
    have hmem := h.held thread handler hthread hne
    rwa [hreader] at hmem
  | @answered handlers resolved called reply hreader hrun =>
    obtain ⟨howes, hvoiced⟩ := run_answers.1 reply hrun
    refine h.turn (by rw [hreader]; exact howes) ?_ ?_
    · intro thread handler hthread hne
      have hmem := h.held thread handler hthread hne
      rwa [hreader] at hmem
    · intro threads other heq
      obtain ⟨-, rfl⟩ := Reader.replying.inj heq
      exact hvoiced
  | @silent handlers resolved called warned hreader hrun =>
    refine h.turn (by rw [hreader]; exact (run_answers.2 hrun).symm) ?_ fun _ _ heq => by cases heq
    intro thread handler hthread hne
    have hmem := h.held thread handler hthread hne
    rwa [hreader] at hmem
  | @replied handlers reply sending ok hreader hpush =>
    have hvoiced := h.voiced.2 handlers reply hreader
    have hheld : ∀ thread handler, c.handlers[thread]? = some handler → handler ≠ .finished →
        thread ∈ handlers := by
      intro thread handler hthread hne
      have hmem := h.held thread handler hthread hne
      rwa [hreader] at hmem
    refine h.pushed hpush hvoiced ?_ ?_ ⟨h.voiced.1, ?_⟩
    · rw [hreader]
      cases ok <;> simpa [Reader.owes] using List.perm_append_comm
    · intro thread handler hthread hne
      cases ok <;> exact hheld thread handler hthread hne
    · intro threads other heq
      cases ok <;> cases heq
  | closes hreader =>
    have hclosed : c.sending.Grows c.sending.close := Sending.Move.close.grows
    exact
      { answered := by
          have hanswered := h.answered
          rw [hreader] at hanswered
          exact hanswered
        held := by
          intro thread handler hthread hne
          have hmem := h.held thread handler hthread hne
          rwa [hreader] at hmem
        voiced := ⟨h.voiced.1, fun _ _ heq => by cases heq⟩
        named := h.named
        accepted := h.accepted
        refused := fun reply hr hok => (h.refused reply hr hok).imp id hclosed.closed }
  | @handled thread resolved called reply hthread hrun =>
    obtain ⟨howes, hvoiced⟩ := run_answers.1 reply hrun
    refine h.move hthread Handler.noConfusion howes fun other heq => ?_
    obtain rfl := Handler.replying.inj heq
    exact hvoiced
  | @spent thread resolved called hthread hrun =>
    exact h.move hthread Handler.noConfusion (run_answers.2 hrun).symm
      fun other heq => by cases heq
  | @handlerReplied thread reply sending ok hthread hpush =>
    have hvoiced := h.voiced.1 reply (List.mem_of_getElem? hthread)
    obtain ⟨before, behind, heq, hset⟩ := set_cases hthread
    refine h.pushed hpush hvoiced ?_ (h.held_set hthread Handler.noConfusion) ⟨?_, h.voiced.2⟩
    · obtain ⟨key, hkey⟩ := Option.isSome_iff_exists.1 hvoiced
      have howed : (Handler.replying reply :: behind).filterMap Handler.owes =
          key :: behind.filterMap Handler.owes := List.filterMap_cons_some hkey
      have hspent : (Handler.finished :: behind).filterMap Handler.owes =
          behind.filterMap Handler.owes := rfl
      rw [hset, heq, List.filterMap_append, List.filterMap_append, howed, hspent, hkey,
        List.append_assoc, List.append_assoc, List.cons_append]
      exact List.perm_middle
    · intro other hr
      rcases mem_set hr with heq | hr
      · cases heq
      · exact h.voiced.1 other hr

theorem talks_run {capacity : ℕ} {h : List (Served × Event)}
    (hr : Run Served.Step (.serve capacity) h c) : c.Talks := by
  refine hr.invariant (P := Served.Talks) meets_true (talks_serve capacity)
    fun c event c' htalks _ hstep => ?_
  rcases step_cases hstep with he | ht
  · exact htalks.elsewhere he
  · exact htalks.talk ht

/-! ## After the writer has stopped -/

theorem writer_of_stopped (h : s.Inv) (hstopped : s.outbox.stopped = true) : s.writer = .done := by
  have hstage := h.stage
  unfold Sending.Stage at hstage
  cases hwriter : s.writer with
  | done => rfl
  | taking | reporting count =>
    rw [hwriter] at hstage; rw [hstage.2.2.2] at hstopped; cases hstopped
  | writing batch => rw [hwriter] at hstage; rw [hstage.2.2.2.2] at hstopped; cases hstopped
  | stopping => rw [hwriter] at hstage; rw [hstage.1] at hstopped; cases hstopped

/-- Once the writer has stopped, the messages are where they are. -/
theorem stopped_move (h : s.Inv) (hstopped : s.outbox.stopped = true) (hm : s.Move s') :
    s'.outbox.stopped = true ∧ s'.log.written = s.log.written ∧
      s'.log.handed ++ s'.outbox.queue = s.log.handed ++ s.outbox.queue := by
  have hwriter := writer_of_stopped h hstopped
  have hstage := h.stage
  unfold Sending.Stage at hstage
  rw [hwriter] at hstage
  obtain ⟨hclosed, -⟩ := hstage
  cases hm with
  | @lossy message hlossy =>
    unfold Sending.pushLossy
    rcases pushLossy_cases message s.outbox with heq | ⟨hopen, -⟩ | ⟨hopen, -⟩
    · rw [heq]
      exact ⟨hstopped, rfl, rfl⟩
    · rw [hclosed] at hopen
      cases hopen
    · rw [hclosed] at hopen
      cases hopen
  | blocking hp =>
    unfold Sending.pushBlocking at hp
    obtain ⟨⟨o, ok⟩, hpush, heq⟩ := Option.map_eq_some_iff.1 hp
    obtain ⟨rfl, rfl⟩ := Prod.mk.inj heq
    rcases pushBlocking_cases hpush with ⟨rfl, rfl, -⟩ | ⟨-, hopen, -, -⟩
    · exact ⟨hstopped, rfl, rfl⟩
    · rw [hclosed] at hopen
      cases hopen
  | close => exact ⟨hstopped, rfl, rfl⟩
  | takes ht => unfold Sending.takes at ht; rw [hwriter] at ht; cases ht
  | writes ht => unfold Sending.writes at ht; rw [hwriter] at ht; cases ht
  | reports ht => unfold Sending.reports at ht; rw [hwriter] at ht; cases ht
  | stops ht => unfold Sending.stops at ht; rw [hwriter] at ht; cases ht

theorem stopped_run {h : List (Served × Event)} (hr : Run Served.Step c h c')
    (hinv : c.sending.Inv) (hstopped : c.sending.outbox.stopped = true) :
    c'.sending.log.written = c.sending.log.written ∧
      c'.sending.log.handed ++ c'.sending.outbox.queue =
        c.sending.log.handed ++ c.sending.outbox.queue := by
  have hall : c'.sending.Inv ∧ c'.sending.outbox.stopped = true ∧
      c'.sending.log.written = c.sending.log.written ∧
      c'.sending.log.handed ++ c'.sending.outbox.queue =
        c.sending.log.handed ++ c.sending.outbox.queue := by
    refine hr.invariant (P := fun d => d.sending.Inv ∧ d.sending.outbox.stopped = true ∧
      d.sending.log.written = c.sending.log.written ∧
      d.sending.log.handed ++ d.sending.outbox.queue =
        c.sending.log.handed ++ c.sending.outbox.queue) meets_true
      ⟨hinv, hstopped, rfl, rfl⟩ ?_
    rintro d event d' ⟨hi, hs, hw, hq⟩ - hstep
    rcases sending_moves hstep with heq | hmove
    · rw [heq]
      exact ⟨hi, hs, hw, hq⟩
    · obtain ⟨hs', hw', hq'⟩ := stopped_move hi hs hmove
      exact ⟨hi.move hmove, hs', hw'.trans hw, hq'.trans hq⟩
  exact ⟨hall.2.2.1, hall.2.2.2⟩

/-- A drain that finds nothing left finds all of it written. -/
theorem drain_empty {elapsed : Bool} (h : s.Inv) (hd : s.outbox.drain elapsed = some .empty) :
    s.log.written = s.log.handed ++ s.outbox.queue := by
  have hidle : s.outbox.queue = [] ∧ s.outbox.inFlight = 0 := by
    unfold Outbox.drain at hd
    split at hd
    · next hidle => exact hidle
    · split at hd
      · cases hd
      · split at hd <;> cases hd
  obtain ⟨hempty, hflight⟩ := hidle
  have hstage := h.stage
  unfold Sending.Stage at hstage
  rw [hempty, List.append_nil]
  cases hwriter : s.writer with
  | taking | reporting count => rw [hwriter] at hstage; exact hstage.2.1.symm
  | writing batch =>
    rw [hwriter] at hstage
    exact absurd (List.length_eq_zero_iff.1 (hstage.1.symm.trans hflight)) hstage.2.1
  | stopping | done =>
    rw [hwriter] at hstage
    rcases hstage.2 with ⟨-, -, hwritten, -⟩ | ⟨-, hne, -⟩
    · exact hwritten.symm
    · exact absurd hflight hne

theorem stopped_cases (h : s.Inv) (hstopped : s.outbox.stopped = true) :
    (s.log.failed = false ∧ s.outbox.inFlight = 0 ∧ s.log.handed = s.log.written ∧
        s.outbox.queue = []) ∨
      (s.log.failed = true ∧ ∃ message rest,
        s.log.handed ++ s.outbox.queue = s.log.written ++ message :: rest) := by
  have hstage := h.stage
  unfold Sending.Stage at hstage
  rw [writer_of_stopped h hstopped] at hstage
  refine hstage.2.imp id ?_
  rintro ⟨hfailed, -, batch, hne, hhanded⟩
  obtain ⟨message, rest, rfl⟩ := List.exists_cons_of_ne_nil hne
  exact ⟨hfailed, message, rest ++ s.outbox.queue, by rw [hhanded]; simp⟩

theorem drain_stopped {elapsed : Bool} (h : s.Inv) (hd : s.outbox.drain elapsed = some .stopped) :
    s.outbox.stopped = true ∧ ∃ message rest,
      s.log.handed ++ s.outbox.queue = s.log.written ++ message :: rest := by
  unfold Outbox.drain at hd
  split at hd
  · cases hd
  · next hbusy =>
    split at hd
    · next hstopped =>
      refine ⟨hstopped, ?_⟩
      rcases stopped_cases h hstopped with ⟨-, hflight, -, hempty⟩ | ⟨-, hlost⟩
      · exact absurd ⟨hempty, hflight⟩ hbusy
      · exact hlost
    · split at hd <;> cases hd

theorem capacity_run {capacity : ℕ} {h : List (Served × Event)}
    (hr : Run Served.Step (.serve capacity) h c) : c.sending.outbox.capacity = capacity := by
  refine hr.invariant (P := fun c => c.sending.outbox.capacity = capacity) meets_true rfl
    fun c event c' hcap _ hstep => ?_
  rcases sending_moves hstep with heq | hmove
  · rw [heq, hcap]
  · rw [hmove.grows.capacity, hcap]

/-! ## Every run -/

/-- **What becomes of the messages and the actions of a channel**, at every
moment of every run. -/
theorem served_exact {capacity : ℕ} {h : List (Served × Event)}
    (hr : Run Served.Step (.serve capacity) h c) :
    c.sending.outbox.queue.length ≤ capacity ∧
    -- what reaches the transport
    c.sending.log.handed.Sublist c.sending.log.accepted ∧
    -- what must not be lost
    (c.sending.log.accepted.Perm
        (c.sending.log.handed ++ c.sending.outbox.queue ++ c.sending.log.evicted) ∧
      (∀ message ∈ c.sending.log.evicted, message.lossy = true) ∧
      (c.sending.outbox.stopped = true → c.sending.log.failed = false →
        c.sending.log.written.filter ChildMessage.lasting =
          c.sending.log.accepted.filter ChildMessage.lasting)) ∧
    -- what is counted
    ((∀ message ∈ c.sending.log.refused, message.lossy = true) ∧
      c.sending.outbox.dropped =
        min (c.sending.log.refused.length + c.sending.log.evicted.length) wordMax) ∧
    -- what a drain answers
    (∀ elapsed, (c.sending.outbox.drain elapsed = some .empty →
        c.sending.log.accepted.Perm (c.sending.log.written ++ c.sending.log.evicted)) ∧
      (c.sending.outbox.drain elapsed = some .stopped → ∃ message rest,
        c.sending.log.handed ++ c.sending.outbox.queue =
          c.sending.log.written ++ message :: rest ∧
        ∀ h' c', Run Served.Step c h' c' → c'.sending.log.written = c.sending.log.written ∧
          c'.sending.log.handed ++ c'.sending.outbox.queue =
            c.sending.log.handed ++ c.sending.outbox.queue)) ∧
    -- what the reader has answered when it closes
    (c.reader = .closing →
      (c.actions.map fun action => (action.1, some action.2)).Perm
        (c.replied.filterMap fun reply => reply.1.answers) ∧
      ∀ reply ∈ c.replied, reply.1.answers.isSome = true ∧
        (reply.2 = true → reply.1 ∈ c.sending.log.accepted) ∧
        (reply.2 = false → capacity = 0 ∨ c.sending.outbox.closed = true)) := by
  have hinv := inv_run hr
  have htalks := talks_run hr
  have hcap := capacity_run hr
  refine ⟨hcap ▸ hinv.bounded, (List.sublist_append_left _ _).trans hinv.order,
    ⟨hinv.given, fun m hm => hinv.spared m (List.mem_append_left _ hm), fun hstopped hfailed => ?_⟩,
    ⟨fun m hm => hinv.spared m (List.mem_append_right _ hm), hinv.counted⟩,
    fun elapsed => ⟨fun hd => ?_, fun hd => ?_⟩, fun hclosing => ⟨?_, fun reply hreply => ?_⟩⟩
  · rcases stopped_cases hinv hstopped with ⟨-, -, hwritten, hempty⟩ | ⟨hfail, -⟩
    · rw [← hinv.kept, hempty, List.append_nil, hwritten]
    · rw [hfail] at hfailed
      cases hfailed
  · rw [drain_empty hinv hd]
    exact hinv.given
  · obtain ⟨hstopped, message, rest, hlost⟩ := drain_stopped hinv hd
    exact ⟨message, rest, hlost, fun h' c' hrun => stopped_run hrun hinv hstopped⟩
  · have hnone : c.handlers.filterMap Handler.owes = [] := by
      refine List.filterMap_eq_nil_iff.2 fun handler hmem => ?_
      obtain ⟨thread, hthread⟩ := List.getElem?_of_mem hmem
      by_contra howes
      have hne : handler ≠ .finished := fun heq => howes (heq ▸ rfl)
      have hheld := htalks.held thread handler hthread hne
      rw [hclosing] at hheld
      exact List.not_mem_nil hheld
    have hanswered := htalks.answered
    rw [hnone, hclosing] at hanswered
    simpa [Reader.owes] using hanswered
  · refine ⟨htalks.named reply hreply, fun hok => ?_, fun hok => ?_⟩
    · refine htalks.accepted.subset (List.mem_map.2 ⟨reply, ?_, rfl⟩)
      exact List.mem_filter.2 ⟨hreply, hok⟩
    · exact hcap ▸ htalks.refused reply hreply hok

/-- The state an event leads to, where it can happen. -/
def Served.next (c : Served) (event : Event) : Served := (c.act event).getD c

theorem Served.next_step (c : Served) (event : Event) (h : (c.act event).isSome = true) :
    c.Step event (c.next event) := by
  obtain ⟨c', hc⟩ := Option.isSome_iff_exists.1 h
  unfold Served.Step Served.next
  rw [hc]
  rfl

/-- An action read, answered by the reader, and written. -/
def answering : List Event :=
  [.blocking .ready, .take, .write true, .wrote, .read (.message (.action "gc" none none 7)),
    .resolve true, .answer (.ok ""), .reply, .take, .write true, .wrote, .read .ended, .join]

/-- The same, but the write of `ready` fails. -/
def refusing : List Event :=
  [.blocking .ready, .take, .write false, .stop, .read (.message (.action "gc" none none 7)),
    .resolve true, .answer (.ok ""), .reply, .join]

/-- The reply to the one action is on record when the reader closes. -/
theorem served_exact_answering :
    ((drive Served.next (.serve 1) answering).actions.map fun action =>
        (action.1, some action.2)).Perm
      ((drive Served.next (.serve 1) answering).replied.filterMap fun reply => reply.1.answers) := by
  have hd : Drives Served.next (fun c event => (c.act event).isSome = true) (.serve 1)
      answering := by decide +kernel
  exact ((served_exact (hd.run Served.next_step)).2.2.2.2.2 (by decide +kernel)).1

/-- **A reply that is refused**: its action was read, and the reader closes
the outbox with no reply accepted. -/
theorem reply_refused : ∃ h c, Run Served.Step (.serve 1) h c ∧ c.reader = .closing ∧
    c.actions = [("gc", 7)] ∧
    ∀ message ∈ c.sending.log.accepted, message.answers ≠ some ("gc", some 7) := by
  have hd : Drives Served.next (fun c event => (c.act event).isSome = true) (.serve 1)
      refusing := by decide +kernel
  exact ⟨_, _, hd.run Served.next_step, by decide +kernel, by decide +kernel, by decide +kernel⟩

end Channel

end Shep
