import Shep.Supervisor.Helpers.Asked
import Shep.Supervisor.Helpers.Leaving
import Shep.Supervisor.Helpers.Owning
import Shep.Supervisor.Helpers.Play

/-!
# Supervisor — whose exit it is

Seven callers write one marker on a running sheep, at any moment between
the kill and the exit. **`exits_owned`** says what comes of it in every
reachable state and across every step: one kill for a life, an operator's
claim that no automatic one displaces, and an exit that does what the claim
on it says. **`restart_outlived`** is a restart that a later delete turns
into the end of the sheep.
-/

namespace Shep

namespace Supervisor

namespace Actor

variable {w : World} {a : Actor} {id : ℕ} {s t taken : SheepSlot} {m : PendingManual}

/-! ## The tail of an exit -/

/-- A sheep whose exit an operator's stop owns, or a restart that may not
start it again, is left stopped. -/
theorem settleExit_stops (ht : a.sheep[id]? = some t) (hman : taken.manual = some m)
    (hstart : taken.entry.startedAt.isSome = true) (hdel : taken.pendingDelete = false)
    (hkind : m.kind = .stop ∨ m.kind = .restart ∧
      (a.shuttingDown = true ∨ a.isDisabled t.name = true))
    (outcome : ExitOutcome) (oomKilled : Bool) :
    ∃ s', (a.settleExit w id taken outcome oomKilled).sheep[id]? = some s' ∧ s'.ctl = t.ctl ∧
      s'.entry.status = .stopped := by
  obtain ⟨startedAt, hstart⟩ := Option.isSome_iff_exists.1 hstart
  have hnot : (some m.kind == some ManualKind.restart && !a.shuttingDown && !taken.pendingDelete &&
      !a.isDisabled t.name) = false := by
    rcases hkind with e | ⟨-, e | e⟩ <;> simp [e]
  have hkeep : (some m.kind == some ManualKind.delete || taken.pendingDelete) = false := by
    rcases hkind with e | ⟨e, -⟩ <;> simp [e, hdel]
  unfold settleExit
  simp only [ht, hman, hstart, Option.map_some]
  rw [hnot, hkeep]
  simp only [decideOnExit, Option.isSome_some, settleDecision, resolvePending_eq, if_true,
    Bool.false_eq_true, if_false]
  exact ⟨_, get_setSlot _ _ _, rfl, rfl⟩

/-- What a respawn comes to: a new life, or a refusal on the row. -/
structure Respawned (task : ℕ) (s' : SheepSlot) : Prop where
  outcome : s'.ctl = some task ∨
    s'.ctl = none ∧ (s'.entry.status = .errored ∨ s'.entry.status = .waitingRestart)

theorem refuseSpawn_respawned (err : AssembleError) (task : ℕ) :
    ∃ s', (a.refuseSpawn id t err).sheep[id]? = some s' ∧ Respawned task s' := by
  unfold refuseSpawn
  split
  · exact ⟨_, get_setSlot _ _ _, ⟨Or.inr ⟨rfl, Or.inl rfl⟩⟩⟩
  · dsimp only
    split
    · exact ⟨_, get_setSlot _ _ _, ⟨Or.inr ⟨rfl, Or.inl rfl⟩⟩⟩
    · exact ⟨_, get_setSlot _ _ _, ⟨Or.inr ⟨rfl, Or.inr rfl⟩⟩⟩

theorem respawn_respawned (ht : a.sheep[id]? = some t) (hen : a.isDisabled t.name = false)
    (manually : Bool) :
    ∃ s', (a.respawn w id manually).sheep[id]? = some s' ∧ Respawned a.nextTask s' := by
  have hfailed : ∀ (u : SheepSlot) (reason : String), ∃ s', (a.setSlot id
      (u.failed reason)).sheep[id]? = some s' ∧ Respawned a.nextTask s' :=
    fun u reason => ⟨_, get_setSlot _ _ _, ⟨Or.inr ⟨rfl, Or.inl rfl⟩⟩⟩
  unfold respawn
  simp only [ht, hen, Bool.false_eq_true, if_false]
  unfold respawnFrom
  split
  · exact hfailed _ _
  · dsimp only
    split
    · exact refuseSpawn_respawned _ _
    · split
      · exact hfailed _ _
      · split <;> exact ⟨_, get_setSlot _ _ _, ⟨Or.inl rfl⟩⟩

theorem settleExit_respawns (ht : a.sheep[id]? = some t) (hman : taken.manual = some m)
    (hstart : taken.entry.startedAt.isSome = true) (hdel : taken.pendingDelete = false)
    (hkind : m.kind = .restart) (hup : a.shuttingDown = false) (hen : a.isDisabled t.name = false)
    (outcome : ExitOutcome) (oomKilled : Bool) :
    ∃ s', (a.settleExit w id taken outcome oomKilled).sheep[id]? = some s' ∧
      Respawned a.nextTask s' := by
  obtain ⟨startedAt, hstart⟩ := Option.isSome_iff_exists.1 hstart
  have hreset := respawn_respawned (w := w) (a := a.setSlot id { t with
      entry := { t.entry with budget := t.entry.budget.reset } })
    (get_setSlot _ _ _) hen (taken.manual.map PendingManual.origin == some .operator)
  obtain ⟨s', hs', hr⟩ := hreset
  unfold settleExit
  simp only [ht, hman, hstart, Option.map_some, hkind, hup, hdel, hen, BEq.rfl, Bool.not_false,
    Bool.and_self, if_true]
  rw [hman, Option.map_some] at hs'
  refine ⟨s', ?_, hr⟩
  unfold resolveExit
  simp only [hs', resolvePending_eq]

/-! ## An exit -/

/-- The tail of an exit is taken from a state that still has the sheep, with
no process, and has neither gone down nor moved a mark. -/
structure Deciding (a d : Actor) (id : ℕ) (s t : SheepSlot) : Prop where
  slot : d.sheep[id]? = some t
  idle : t.ctl = none
  name : t.name = s.name
  down : d.shuttingDown = a.shuttingDown
  disabled : d.disabled = a.disabled
  nextTask : d.nextTask = a.nextTask

theorem endOrphanedSwap_form (id : ℕ) (a : Actor) : ∃ reloads trace panicked,
    a.endOrphanedSwap id = { a with reloads := reloads, trace := trace, panicked := panicked } := by
  unfold endOrphanedSwap
  split
  · exact ⟨_, _, _, rfl⟩
  · split
    · exact ⟨_, _, _, rfl⟩
    · split
      · exact ⟨_, _, _, rfl⟩
      · unfold debugAssert
        split <;> exact ⟨_, _, _, rfl⟩

theorem Deciding.of_emptied {task : Task} (outcome : ExitOutcome) {d : Actor} {t : SheepSlot}
    (hd : ∃ sheep reloads trace panicked, d = { a.emptied task s outcome with
      sheep := sheep, reloads := reloads, trace := trace, panicked := panicked })
    (ht : d.sheep[task.id]? = some t) (hctl : t.ctl = none) (hname : t.name = s.name) :
    Deciding a d task.id s t := by
  obtain ⟨sheep, reloads, trace, panicked, rfl⟩ := hd
  exact ⟨ht, hctl, hname, rfl, rfl, rfl⟩

/-- **What an exit comes to**: the sheep is off the flock, as half of a swap,
or its exit is settled by the claim it had. -/
theorem turn_exit_cases (h : Inv .none a) {task : Task} (htask : task ∈ a.tasks)
    (hs : a.sheep[task.id]? = some s) (w : World) (outcome : ExitOutcome) (oomKilled : Bool) :
    s.entry.reload ≠ .none ∧ (a.turn w (.exited task outcome oomKilled)).sheep[task.id]? = none ∨
      ∃ d t, Deciding a d task.id s t ∧ (a.turn w (.exited task outcome oomKilled)).sheep =
        (d.settleExit w task.id s outcome oomKilled).sheep := by
  obtain ⟨s', hs', hctl, -⟩ := h.tasks.owned task htask
  obtain rfl := Option.some.inj (hs.symm.trans hs')
  have hem := emptied_ok (c := ⟨a, w, .exited task outcome oomKilled⟩) h rfl htask hs hctl rfl
  have hget : (a.receive (.exited task outcome oomKilled)).sheep[task.id]? = some s := hs
  have hset : (a.receive (.exited task outcome oomKilled)).setSlot task.id (s.exited outcome) =
      a.emptied task s outcome := rfl
  have hturn : (a.turn w (.exited task outcome oomKilled)).sheep =
      ((a.receive (.exited task outcome oomKilled)).handleExited w task.id outcome oomKilled).sheep :=
    rfl
  rw [hturn]
  unfold handleExited
  simp only [hget, hset]
  cases hr : s.entry.reload with
  | none =>
    exact Or.inr ⟨a.emptied task s outcome, s.exited outcome,
      .of_emptied outcome ⟨_, _, _, _, rfl⟩ hem.slot rfl rfl, rfl⟩
  | drainee q =>
    have hunmarked : ∀ t, (a.emptied task s outcome).sheep[task.id]? = some t →
        t.entry.reload ≠ .replacement := by
      intro t ht
      rw [← Option.some.inj (hem.slot.symm.trans ht)]
      simp [SheepSlot.exited, hr]
    have hnew : ∀ (n : String) (job : ReloadJob), (a.emptied task s outcome).reloads[n]? = some job →
        job.swap.newId ≠ some task.id := by
      intro n job hj he
      rw [hem.reloads] at hj
      exact (h.jobs n job hj).new_mark task.id s q he hs hr
    have hgone : ((a.emptied task s outcome).reapDrainee w task.id).sheep[task.id]? = none :=
      Reaping.reap_gone (c := ⟨a, w, .exited task outcome oomKilled⟩)
        ⟨hem.inv, ⟨_, hem.slot, rfl⟩, hnew⟩ hunmarked hem.queued
    dsimp only
    split
    · next n hn =>
      split
      · -- an uncommitted swap is aborted, and the claim decides
        obtain ⟨job, hj, hp⟩ := jobWhere_some hn
        obtain ⟨hphase, hnames⟩ : job.swap.phase = .awaitReady ∧ job.names task.id = true := by
          simpa using hp
        have hold : job.swap.oldId = task.id :=
          (ReloadJob.names_iff.1 hnames).resolve_right (hnew n job hj)
        have hslot := abortReload_drainee hem.inv hj hphase (hold ▸ hem.slot)
        rw [hold] at hslot
        obtain ⟨sheep, trace, he⟩ := abortReload_form n (a.emptied task s outcome)
        refine Or.inr ⟨_, _, .of_emptied outcome ⟨sheep, _, trace, _, he⟩ hslot ?_ ?_, rfl⟩
        · rw [SheepSlot.restore_ctl]
          rfl
        · rw [SheepSlot.restore_name]
          rfl
      · exact Or.inl ⟨by simp, hgone⟩
    · exact Or.inl ⟨by simp, hgone⟩
  | replacement =>
    dsimp only
    split
    · next n hn =>
      refine Or.inl ⟨by simp, ?_⟩
      unfold deregisterOnExit
      split
      · next hnone => exact hnone
      · simp [resolvePending_eq, removeSlot]
    · have hclear : ((a.emptied task s outcome).clearReload task.id) =
          { a.emptied task s outcome with
            sheep := (a.emptied task s outcome).sheep.insert task.id
              ((s.exited outcome).setReload .none) } := by
        simp only [clearReload, modifySlot, hem.slot]
        rfl
      obtain ⟨reloads, trace, panicked, he⟩ :=
        endOrphanedSwap_form task.id ((a.emptied task s outcome).clearReload task.id)
      rw [hclear] at he ⊢
      refine Or.inr ⟨_, (s.exited outcome).setReload .none,
        .of_emptied outcome ⟨_, reloads, trace, panicked, he⟩ ?_ rfl rfl, rfl⟩
      rw [he]
      simp

/-- **An exit does what the claim on it says.** -/
theorem turn_exit_claimed (h : Inv .none a) {task : Task} (htask : task ∈ a.tasks)
    (hs : a.sheep[task.id]? = some s) (hman : s.manual = some m) (w : World)
    (outcome : ExitOutcome) (oomKilled : Bool) :
    (s.pendingDelete = true →
      (a.turn w (.exited task outcome oomKilled)).sheep[task.id]? = none) ∧
    (m.kind = .stop ∨ m.kind = .restart ∧ (a.shuttingDown = true ∨ s.name ∈ a.disabled) →
      ∀ s', (a.turn w (.exited task outcome oomKilled)).sheep[task.id]? = some s' →
        s'.ctl = none ∧ s'.entry.status = .stopped) ∧
    (m.kind = .restart → s.pendingDelete = false → a.shuttingDown = false → s.name ∉ a.disabled →
      s.entry.reload = .none →
      ∃ s', (a.turn w (.exited task outcome oomKilled)).sheep[task.id]? = some s' ∧
        Respawned a.nextTask s') := by
  obtain ⟨s', hs', hctl, -⟩ := h.tasks.owned task htask
  obtain rfl := Option.some.inj (hs.symm.trans hs')
  have hstart : s.entry.startedAt.isSome = true := by
    rw [(h.wellFormed hs).startedAt, hctl]
    rfl
  rcases turn_exit_cases h htask hs w outcome oomKilled with ⟨hswap, hgone⟩ | ⟨d, t, hd, he⟩
  · rw [hgone]
    exact ⟨fun _ => rfl, fun _ s' hs' => (by cases hs'), fun _ _ _ _ hr => absurd hr hswap⟩
  · rw [he]
    have hmark : d.isDisabled t.name = true ↔ s.name ∈ a.disabled := by
      simp [isDisabled, hd.disabled, hd.name]
    cases hdel : s.pendingDelete with
    | true =>
      have hgone := (settleExit_deletes (w := w) hd.slot hdel (by simp [hman]) outcome oomKilled).1
      rw [hgone]
      refine ⟨fun _ => (by simp), fun _ s' hs' => ?_, fun _ hno => (by cases hno)⟩
      simp at hs'
    | false =>
      refine ⟨fun hno => (by cases hno), fun hkind s' hs' => ?_, fun hkind _ hup hen _ => ?_⟩
      · have hkind' : m.kind = .stop ∨ m.kind = .restart ∧
            (d.shuttingDown = true ∨ d.isDisabled t.name = true) := by
          rw [hd.down, hmark]
          exact hkind
        obtain ⟨u, hu, huctl, hst⟩ :=
          settleExit_stops (w := w) hd.slot hman hstart hdel hkind' outcome oomKilled
        rw [← Option.some.inj (hu.symm.trans hs')]
        exact ⟨huctl.trans hd.idle, hst⟩
      · have hen' : d.isDisabled t.name = false := by
          cases hdis : d.isDisabled t.name with
          | false => rfl
          | true => exact absurd (hmark.1 hdis) hen
        rw [← hd.nextTask]
        exact settleExit_respawns hd.slot hman hstart hdel hkind (hd.down.trans hup) hen' outcome
          oomKilled

end Actor

/-! ## Whole runs -/

/-- An operator's verb of this turn reaches `id`. -/
def Turn.Asks (c : Turn) (id : ℕ) (kind : ManualKind) : Prop :=
  match c.msg with
  | .command (.stop selector) => kind = .stop ∧ id ∈ c.before.matchingIds selector
  | .command (.restart selector origin) => kind = .restart ∧ origin = .operator ∧
      c.before.shuttingDown = false ∧ id ∈ c.before.matchingIds selector ∧
      c.before.isDisabledId id = false ∧
      (selector.isExact = true → ∀ j ∈ c.before.matchingIds selector,
        c.before.isDisabledId j = false)
  | .command (.delete selector) => kind = .delete ∧ id ∈ c.before.matchingIds selector ∧
      ∀ j ∈ c.before.matchingIds selector, c.before.builtInDogName j = none
  | .command .shutdown => kind = .stop
  | _ => False

namespace Actor

variable {w : World} {a : Actor} {id : ℕ} {s : SheepSlot}

/-- **An operator's verb leaves a running sheep to an operator**: to itself,
unless another operator's was there first. -/
theorem turn_asks {m : Msg} (hs : a.sheep[id]? = some s) (hctl : s.ctl.isSome = true)
    {kind : ManualKind} (hasks : (⟨a, w, m⟩ : Turn).Asks id kind) :
    ∃ s', (a.turn w m).sheep[id]? = some s' ∧ s'.manual = some (s.ownerFor kind) ∧
      (kind = .delete → s'.pendingDelete = true) := by
  have hlive : ∀ b : Actor, b.sheep[id]? = s.askedTo kind → ∃ s', b.sheep[id]? = some s' ∧
      s'.manual = some (s.ownerFor kind) ∧ (kind = .delete → s'.pendingDelete = true) := by
    intro b hb
    rw [hb, SheepSlot.askedTo_live hctl]
    exact ⟨_, rfl, rfl, fun e => by simp [e]⟩
  have hne : ∀ {selector : ProcessSelector}, id ∈ a.matchingIds selector →
      (a.matchingIds selector).isEmpty = false := by
    intro selector hid
    cases hl : a.matchingIds selector with
    | nil =>
      rw [hl] at hid
      cases hid
    | cons => rfl
  unfold Turn.Asks at hasks
  split at hasks
  · next selector hmsg =>
    obtain rfl : m = _ := hmsg
    obtain ⟨rfl, hid⟩ := hasks
    refine hlive _ (Eq.trans ?_ (beginManualIds_live (w := w) (nodup_matchingIds selector) hid hs hctl
      .stop .info))
    change (a.beginManual w selector .stop .operator .info).sheep[id]? = _
    simp [beginManual, hne hid]
  · next selector origin hmsg =>
    obtain rfl : m = _ := hmsg
    obtain ⟨rfl, rfl, hup, hid, hen, hexact⟩ := hasks
    have hmem : id ∈ (a.matchingIds selector).filter fun id => !a.isDisabledId id :=
      List.mem_filter.2 ⟨hid, by simp [hen]⟩
    refine hlive _ (Eq.trans ?_ (beginManualIds_live (w := w)
      ((nodup_matchingIds selector).filter _) hmem hs hctl .restart .info))
    change (a.handleCommand w (.restart selector .operator)).sheep[id]? = _
    have hup' : a.shuttingDown = false := hup
    simp only [handleCommand, hup', restartUnlessDisabled, hne hid, Bool.false_eq_true, if_false]
    cases hheld : ((a.matchingIds selector).filter a.isDisabledId).head?.bind
        fun id => (a.sheep[id]?).map SheepSlot.name with
    | none => rfl
    | some name =>
      have hne' : selector.isExact = false := by
        by_contra hex
        have hall := hexact (by simpa using hex)
        have hnil : (a.matchingIds selector).filter a.isDisabledId = [] :=
          List.filter_eq_nil_iff.2 fun j hj => by simp [hall j hj]
        simp [hnil] at hheld
      simp [hne']
  · next selector hmsg =>
    obtain rfl : m = _ := hmsg
    obtain ⟨rfl, hid, hown⟩ := hasks
    have hnone : (a.matchingIds selector).findSome? (fun id => a.builtInDogName id) = none :=
      List.findSome?_eq_none_iff.2 hown
    refine hlive _ (Eq.trans ?_ (beginManualIds_live (w := w) (nodup_matchingIds selector) hid hs hctl
      .delete .ids))
    change (a.beginManual w selector .delete .operator .ids).sheep[id]? = _
    simp [beginManual, hne hid, hnone]
  · next hmsg =>
    obtain rfl : m = _ := hmsg
    obtain rfl := hasks
    let b : Actor := { a with shuttingDown := true, reloads := ∅ }
    have hid : id ∈ b.idsWhere fun _ slot => slot.ctl.isSome := mem_idsWhere.2 ⟨s, hs, hctl⟩
    have hclaim := claimStops_live (a := b) (nodup_idsWhere _) hid hs
    refine ⟨_, Eq.trans ?_ hclaim, rfl, fun e => by cases e⟩
    have hne : (b.idsWhere fun _ slot => slot.ctl.isSome).isEmpty = false := by
      cases hl : b.idsWhere fun _ slot => slot.ctl.isSome with
      | nil =>
        rw [hl] at hid
        cases hid
      | cons => rfl
    change (a.beginShutdown).sheep[id]? = _
    unfold beginShutdown
    simp only [show ({ a with shuttingDown := true, reloads := ∅ } : Actor) = b from rfl, hne,
      Bool.false_eq_true, if_false, park]
  · exact hasks.elim

end Actor

/-- **Who owns the end of a life**, in every reachable state and across
every step. -/
theorem exits_owned {dogBinaries : List (String × String)} {h : List (Actor × World × Msg)}
    {a : Actor} (hr : Run Actor.Step (.init dogBinaries) h a) :
    (∀ k, a.killsOf k ≤ 1) ∧
    (∀ (id : ℕ) (s : SheepSlot), a.sheep[id]? = some s → s.pendingDelete = true →
      s.manual.isSome = true) ∧
    ∀ (e : World × Msg) (a' : Actor), Actor.Step a e a' →
      ∀ (id k : ℕ) (s : SheepSlot), a.sheep[id]? = some s → s.ctl = some k →
        ((∃ s', a'.sheep[id]? = some s' ∧ s.Keeps ⟨a, e.1, e.2⟩ s') ∨
          ∃ task outcome oomKilled, e.2 = .exited task outcome oomKilled ∧ task.serial = k) ∧
        (∀ kind, (⟨a, e.1, e.2⟩ : Turn).Asks id kind → ∃ s', a'.sheep[id]? = some s' ∧
          s'.manual = some (s.ownerFor kind) ∧ (kind = .delete → s'.pendingDelete = true)) ∧
        ∀ task outcome oomKilled m, e.2 = .exited task outcome oomKilled → task.id = id →
          s.manual = some m →
          (m.kind = .delete ∨ s.pendingDelete = true → a'.sheep[id]? = none) ∧
          (m.kind = .stop ∨ m.kind = .restart ∧ (a.shuttingDown = true ∨ s.name ∈ a.disabled) →
            ∀ s', a'.sheep[id]? = some s' → s'.ctl = none ∧ s'.entry.status = .stopped) ∧
          (m.kind = .restart → s.pendingDelete = false → a.shuttingDown = false →
            s.name ∉ a.disabled → s.entry.reload = .none →
            ∃ s', a'.sheep[id]? = some s' ∧ Actor.Respawned a.nextTask s') := by
  have hinv := Actor.reachable_inv hr
  refine ⟨?_, ?_, ?_⟩
  · exact (spared_run hr (Actor.inv_init dogBinaries) (spared_init dogBinaries)).once
  · intro id s hs hdel
    exact ((hinv.wellFormed hs).doomed hdel).1
  · rintro ⟨w, m⟩ a' ⟨-, hadm, rfl⟩ id k s hs hk
    refine ⟨Actor.turn_keeps hinv hadm w hs hk, fun kind hasks => ?_, ?_⟩
    · exact Actor.turn_asks hs (by simp [hk]) hasks
    · rintro task outcome oomKilled held rfl rfl hman
      obtain ⟨hgone, hleft⟩ := Actor.turn_exit_claimed hinv hadm hs hman w outcome oomKilled
      refine ⟨fun hdel => hgone (hdel.elim (fun hkind => ?_) id), hleft⟩
      exact (hinv.wellFormed hs).deleting held.origin (hman.trans (by rw [← hkind]))

/-! ## Runs -/

/-- A sheep asked to restart, and to go before it has exited. -/
def outlived : List (World × Msg) :=
  overlapping.take 2 ++
    [(plain, .command (.restart (.id 0) .operator)), (plain, .command (.delete (.id 0)))]

/-- The delete is the word that counts. -/
theorem exits_owned_outlived : (((Actor.init []).play outlived).turn plain
    (.exited (life 0 0 probed .fresh) ⟨some 1, none⟩ false)).sheep[0]? = none := by
  have hplay : (Actor.init []).Playable outlived := by decide +kernel
  have hslot : ((Actor.init []).play outlived).sheep[0]?.map
      (fun s => (s.ctl, s.manual, s.pendingDelete)) =
      some (some 0, some ⟨.restart, .operator⟩, true) := by decide +kernel
  have hadm : ((Actor.init []).play outlived).running = true ∧
      life 0 0 probed .fresh ∈ ((Actor.init []).play outlived).tasks := by decide +kernel
  obtain ⟨s, hs, he⟩ := Option.map_eq_some_iff.1 hslot
  obtain ⟨hctl, hman, hdel⟩ : s.ctl = some 0 ∧ s.manual = some ⟨.restart, .operator⟩ ∧
      s.pendingDelete = true := by simpa using he
  have hstep : Actor.Step ((Actor.init []).play outlived)
      (plain, .exited (life 0 0 probed .fresh) ⟨some 1, none⟩ false) _ := ⟨hadm.1, hadm.2, rfl⟩
  exact (((exits_owned hplay.run).2.2 _ _ hstep 0 0 s hs hctl).2.2 _ _ _ _ rfl rfl hman).1
    (Or.inr hdel)

/-- **A restart that does not decide the exit it claimed**: no reload, no
shutdown and no disabled mark stands against it, but a later delete. -/
theorem restart_outlived : ∃ (h : List (Actor × World × Msg)) (a a' : Actor) (s : SheepSlot)
    (task : Task) (outcome : ExitOutcome), Run Actor.Step (.init []) h a ∧
      a.sheep[task.id]? = some s ∧ s.manual = some ⟨.restart, .operator⟩ ∧
      a.shuttingDown = false ∧ s.name ∉ a.disabled ∧ s.entry.reload = .none ∧
      Actor.Step a (plain, .exited task outcome false) a' ∧ a'.sheep[task.id]? = none := by
  have hplay : (Actor.init []).Playable outlived := by decide +kernel
  have hslot : ((Actor.init []).play outlived).sheep[0]?.map
      (fun s => (s.name, s.manual, s.entry.reload)) =
      some ("web", some ⟨.restart, .operator⟩, .none) := by decide +kernel
  have hup : ((Actor.init []).play outlived).shuttingDown = false ∧
      "web" ∉ ((Actor.init []).play outlived).disabled := by decide +kernel
  have hadm : ((Actor.init []).play outlived).running = true ∧
      life 0 0 probed .fresh ∈ ((Actor.init []).play outlived).tasks := by decide +kernel
  have hgone : (((Actor.init []).play outlived).turn plain
      (.exited (life 0 0 probed .fresh) ⟨some 0, none⟩ false)).sheep.isEmpty = true := by
    decide +kernel
  obtain ⟨s, hs, he⟩ := Option.map_eq_some_iff.1 hslot
  obtain ⟨hname, hman, hreload⟩ : s.name = "web" ∧ s.manual = some ⟨.restart, .operator⟩ ∧
      s.entry.reload = .none := by simpa using he
  refine ⟨_, _, _, s, life 0 0 probed .fresh, ⟨some 0, none⟩, hplay.run, hs, hman, hup.1, ?_,
    hreload, ⟨hadm.1, hadm.2, rfl⟩, ?_⟩
  · rw [hname]
    exact hup.2
  · rw [Std.ExtTreeMap.isEmpty_iff.1 hgone]
    rfl

end Supervisor

end Shep
