import Shep.Supervisor.Helpers.Turning

/-!
# Supervisor — messages that leave the flock as it was

`Undisturbed` is what a handover must find as the snapshot left it: the
tasks, the ids, which slot holds which process, which slots are stopped
and which apps are disabled. `Quiet` says from the state a message finds
that it moves none of this, and `Quiet.turn` that a quiet turn does not.
A stop, a delete or a restart of sheep that all run is quiet: it marks
them, and is not answered before they exit.
-/

namespace Shep

namespace Supervisor

/-- What a carried row says of a slot that a client can have been told. -/
def SheepSlot.berth (s : SheepSlot) :
    String × Option ℕ × Option ℕ × Bool × Option DogSource :=
  (s.name, s.ctl, s.entry.pid, s.entry.status == .stopped, s.entry.dog)

namespace Actor

/-- The flock is where it was. -/
structure Undisturbed (a a' : Actor) : Prop where
  tasks : a'.tasks = a.tasks
  nextId : a'.nextId = a.nextId
  slots : ∀ id : ℕ, (a'.sheep[id]?).map SheepSlot.berth = (a.sheep[id]?).map SheepSlot.berth
  disabled : ∀ (id : ℕ) (s : SheepSlot), a.sheep[id]? = some s →
    (s.name ∈ a'.disabled ↔ s.name ∈ a.disabled)

/-- The message finds nothing to start, stop, register, remove or disable. -/
def Quiet (a : Actor) : Msg → Prop
  | .command command =>
    match command with
    | .list | .inspect | .reset _ | .extraRestart _ _ _ _ | .setSheepEnv _ _ _
    | .setSheepEnvBatch _ _ _ _ | .copySheepEnv _ _ _ _ _ _ | .setSheepField _ _ _
    | .resetSheepField _ _ | .setSheepDogSettings _ _ _ => True
    | .stop selector | .delete selector | .restart selector _ =>
      ∀ id ∈ a.matchingIds selector, a.isRunning id = true
    | .reload selector => a.matchingIds selector = []
    | .disable selector => a.reachedIds selector .enabled = []
    | .enable selector => a.reachedIds selector .disabled = []
    | _ => False
  | .exited _ _ _ => False
  | .restartDue timer => ∀ s, a.sheep[timer.id]? = some s →
      ¬ (s.entry.status = .waitingRestart ∧ s.epoch = timer.epoch)
  | .readyResult wait _ => ∀ s, a.sheep[wait.id]? = some s → s.entry.reload ≠ .replacement
  | .reloadDeadline watchdog => ∀ job : ReloadJob, a.reloads[watchdog.name]? = some job →
      job.deadline ≠ watchdog.stamp
  | .reloadVerified verify _ => ∀ job : ReloadJob, a.reloads[verify.name]? = some job →
      job.swap.newId ≠ some verify.newId ∨ job.swap.phase ≠ .verify

variable {a b c : Actor} {w : World} {id : ℕ} {s s' : SheepSlot}

namespace Undisturbed

theorem refl (a : Actor) : a.Undisturbed a :=
  ⟨rfl, rfl, fun _ => rfl, fun _ _ _ => Iff.rfl⟩

theorem slot (h : a.Undisturbed b) (hs : b.sheep[id]? = some s') :
    ∃ s, a.sheep[id]? = some s ∧ s.berth = s'.berth := by
  have hmap := h.slots id
  rw [hs, Option.map_some] at hmap
  exact Option.map_eq_some_iff.1 hmap.symm

theorem slot' (h : a.Undisturbed b) (hs : a.sheep[id]? = some s) :
    ∃ s', b.sheep[id]? = some s' ∧ s'.berth = s.berth := by
  have hmap := h.slots id
  rw [hs, Option.map_some] at hmap
  exact Option.map_eq_some_iff.1 hmap

theorem trans (h : a.Undisturbed b) (h' : b.Undisturbed c) : a.Undisturbed c where
  tasks := h'.tasks.trans h.tasks
  nextId := h'.nextId.trans h.nextId
  slots := fun id => (h'.slots id).trans (h.slots id)
  disabled := by
    intro id s hs
    obtain ⟨s', hs', hberth⟩ := h.slot' hs
    have hname : s'.name = s.name := congrArg Prod.fst hberth
    have hlater := h'.disabled id s' hs'
    rw [hname] at hlater
    exact hlater.trans (h.disabled id s hs)

/-- A write that keeps every berth, and touches nothing else a handover
reads. -/
theorem of_slots (htasks : b.tasks = a.tasks) (hid : b.nextId = a.nextId)
    (hdis : b.disabled = a.disabled)
    (hslots : ∀ id : ℕ, (b.sheep[id]?).map SheepSlot.berth = (a.sheep[id]?).map SheepSlot.berth) :
    a.Undisturbed b :=
  ⟨htasks, hid, hslots, fun _ _ _ => by rw [hdis]⟩

theorem setSlot (hs : a.sheep[id]? = some s) (hberth : s'.berth = s.berth) :
    a.Undisturbed (a.setSlot id s') := by
  refine of_slots rfl rfl rfl fun j => ?_
  by_cases hj : j = id
  · subst hj
    simp [Actor.setSlot, hs, hberth]
  · simp [Actor.setSlot, hj]

theorem modifySlot {f : SheepSlot → SheepSlot} (hf : ∀ s, (f s).berth = s.berth) (id : ℕ)
    (a : Actor) : a.Undisturbed (a.modifySlot id f) := by
  unfold Actor.modifySlot
  cases hs : a.sheep[id]? with
  | none => exact refl a
  | some s => exact setSlot hs (hf s)

theorem answer (answer : Answer) (a : Actor) : a.Undisturbed (a.answer answer) :=
  of_slots rfl rfl rfl fun _ => rfl

theorem mapApp {name : String} {f : SheepSlot → SheepSlot}
    (hf : ∀ s, s.name = name → (f s).berth = s.berth) : a.Undisturbed (a.mapApp name f) := by
  refine of_slots rfl rfl rfl fun j => ?_
  simp only [Actor.mapApp, mapSlots, Table.get_map, Option.map_map]
  cases a.sheep[j]? with
  | none => rfl
  | some s =>
    by_cases hn : s.name = name
    · simp [hn, hf s hn]
    · simp [hn]

theorem pruneDisabled (a : Actor) : a.Undisturbed a.pruneDisabled := by
  refine ⟨rfl, rfl, fun _ => rfl, fun id s hs => ?_⟩
  have hheld : s.name ∈ a.heldNames :=
    List.mem_map.2 ⟨(id, s), Table.mem_toList.2 hs, rfl⟩
  simp [Actor.pruneDisabled, hheld]

end Undisturbed

/-! ## Claims on running sheep -/

theorem claimManual_undisturbed (id : ℕ) (m : PendingManual) (cap : LadderCap) (a : Actor) :
    a.Undisturbed (a.claimManual id m cap) := by
  unfold claimManual
  cases hs : a.sheep[id]? with
  | none => exact .refl a
  | some s =>
    have hmark : a.Undisturbed (a.mark id s m cap) := by
      have hset : a.Undisturbed (a.setSlot id { s with manual := some m }) :=
        Undisturbed.setSlot hs rfl
      exact hset.trans (.of_slots rfl rfl rfl fun _ => rfl)
    dsimp only
    split
    · unfold sendKill
      split
      · exact hmark.trans (.of_slots rfl rfl rfl fun _ => rfl)
      · exact hmark
    · split
      · exact hmark
      · exact .refl a

theorem Undisturbed.isRunning (h : a.Undisturbed b) (id : ℕ) : b.isRunning id = a.isRunning id := by
  refine isRunning_of_ctl ?_
  have hmap := congrArg (Option.map fun berth => berth.2.1) (h.slots id)
  rw [Option.map_map, Option.map_map] at hmap
  exact hmap

/-- A command over running ids marks them and no more. -/
theorem gather_undisturbed (kind : ManualKind) (origin : CommandOrigin) (ids : List ℕ) :
    ∀ g : Gathered, (∀ id ∈ ids, g.actor.isRunning id = true) →
      g.actor.Undisturbed (ids.foldl (manualOne w kind origin) g).actor := by
  induction ids with
  | nil => exact fun g _ => .refl g.actor
  | cons id ids ih =>
    intro g hall
    have hrun := hall id List.mem_cons_self
    have hone : g.actor.Undisturbed (manualOne w kind origin g id).actor := by
      simp only [manualOne, hrun, if_true]
      split
      · exact .refl _
      · have hclaim := claimManual_undisturbed id ⟨kind, origin⟩ .stop g.actor
        split
        · exact hclaim.trans (.modifySlot (by intro t; rfl) id _)
        · exact hclaim
    refine hone.trans (ih _ fun j hj => ?_)
    rw [hone.isRunning]
    exact hall j (List.mem_cons_of_mem _ hj)

theorem beginManualIds_undisturbed {ids : List ℕ} (hall : ∀ id ∈ ids, a.isRunning id = true)
    (kind : ManualKind) (origin : CommandOrigin) (reply : ReplyKind) :
    a.Undisturbed (a.beginManualIds w ids kind origin reply) := by
  have hg := gather_undisturbed (w := w) kind origin ids ⟨[], [], a⟩ hall
  unfold beginManualIds
  dsimp only
  split
  · exact hg.trans (.answer _ _)
  · exact hg.trans (.of_slots rfl rfl rfl fun _ => rfl)

theorem beginManual_undisturbed {selector : ProcessSelector}
    (hall : ∀ id ∈ a.matchingIds selector, a.isRunning id = true) (kind : ManualKind)
    (origin : CommandOrigin) (reply : ReplyKind) :
    a.Undisturbed (a.beginManual w selector kind origin reply) := by
  unfold beginManual
  dsimp only
  split
  · exact .answer _ a
  · split
    · exact .answer _ a
    · exact beginManualIds_undisturbed hall kind origin reply

theorem restartUnlessDisabled_undisturbed {selector : ProcessSelector}
    (hall : ∀ id ∈ a.matchingIds selector, a.isRunning id = true) (origin : CommandOrigin) :
    a.Undisturbed (a.restartUnlessDisabled w selector origin) := by
  have hids : ∀ id ∈ (a.matchingIds selector).filter fun id => !a.isDisabledId id,
      a.isRunning id = true := fun id hid => hall id (List.mem_filter.1 hid).1
  unfold restartUnlessDisabled
  dsimp only
  split
  · exact .answer _ a
  · split
    · split
      · exact .answer _ a
      · exact beginManualIds_undisturbed hids .restart origin .info
    · exact beginManualIds_undisturbed hids .restart origin .info

/-- A breach names a process that runs. -/
theorem handleExtraRestart_undisturbed (h : Inv .none a) (id pid : ℕ) (epoch observed : Option ℕ) :
    a.Undisturbed (a.handleExtraRestart w id pid epoch observed) := by
  unfold handleExtraRestart
  split
  · exact .refl a
  · split
    · exact .refl a
    · next s hs =>
      split
      · exact .refl a
      · split
        · exact .refl a
        · next hpid =>
          split
          · exact .refl a
          · split
            · exact .refl a
            · split
              · exact .refl a
              · refine beginManual_undisturbed (fun j hj => ?_) .restart .automatic .info
                obtain rfl : j = id := mem_matchingIds_id hj
                refine isRunning_iff.2 ⟨s, hs, ?_⟩
                rw [← (h.wellFormed hs).pid, not_not.1 hpid]
                rfl

/-! ## Edits -/

theorem parkEdited_undisturbed (name : String) (edited : AppConfig) (a : Actor) :
    a.Undisturbed (a.parkEdited w name edited).2 := by
  unfold parkEdited
  split
  · exact .refl a
  · split
    · exact .refl a
    · exact .mapApp fun _ _ => rfl

theorem handleSetSheepEnv_undisturbed (name key : String) (value : Option String) (a : Actor) :
    a.Undisturbed (a.handleSetSheepEnv w name key value).2 := by
  unfold handleSetSheepEnv
  split
  · exact .refl a
  · exact .refl a
  · exact parkEdited_undisturbed name _ a

theorem handleSetSheepEnvBatch_undisturbed (name : String) (entries : List (String × String))
    (force dryRun : Bool) (a : Actor) :
    a.Undisturbed (a.handleSetSheepEnvBatch w name entries force dryRun).2 := by
  unfold handleSetSheepEnvBatch
  split
  · exact .refl a
  · exact .refl a
  · dsimp only
    split
    · exact .refl a
    · split
      · split <;> exact .refl a
      · exact parkEdited_undisturbed name _ a

theorem handleCopySheepEnv_undisturbed (source target : String) (replace : Bool)
    (keep : List String) (dryRun : Bool) (reviewed : Option (List EnvCopyChange)) (a : Actor) :
    a.Undisturbed (a.handleCopySheepEnv w source target replace keep dryRun reviewed).2 := by
  unfold handleCopySheepEnv
  split
  · exact .refl a
  · exact .refl a
  · split
    · exact .refl a
    · split
      · exact .refl a
      · dsimp only
        generalize (ite (replace = true) _ _ : List (String × String)) = after
        split
        · exact .refl a
        · split
          · exact .refl a
          · split
            · split <;> exact .refl a
            · exact parkEdited_undisturbed target _ a

theorem applySheepField_undisturbed (h : Inv .none a) (name key : String)
    {edit : AppConfig → Except SupervisorError AppConfig}
    (hedit : ∀ app app', edit app = .ok app' → app'.name = app.name) :
    a.Undisturbed (a.applySheepField w name key edit).2 := by
  unfold applySheepField
  split
  · exact .refl a
  · exact .refl a
  · next s hs =>
    obtain ⟨hwf, hn⟩ := paneTarget_own h hs
    split
    · exact .refl a
    · next edited he =>
      split
      · exact .refl a
      · next merged hm =>
        have hmerged : merged.name = name :=
          (w.normalize_name hm).trans ((hedit _ _ he).trans (hwf.intendedSpec_name.trans hn))
        dsimp only
        split
        · exact .refl a
        · refine .mapApp fun t htn => ?_
          -- only the spec moves, and it keeps the app's name
          have hname : ((w.reachedSpec s.entry.spec s.intendedSpec merged s.entry.spec.instances).toOption.getD
              t.entry.spec).name = t.name := by
            cases hx : (w.reachedSpec s.entry.spec s.intendedSpec merged s.entry.spec.instances).toOption with
            | none => rfl
            | some app =>
              refine Eq.trans ?_ htn.symm
              exact toOption_name (fun app happ =>
                (w.reachedSpec_name (hn.trans hmerged.symm) happ).trans hn) app hx
          exact Prod.ext hname rfl

theorem handleReset_undisturbed (selector : ProcessSelector) (a : Actor) :
    a.Undisturbed (a.handleReset selector) := by
  have hfold : ∀ (ids : List ℕ) (b : Actor), b.Undisturbed
      (ids.foldl (fun a id => a.modifySlot id resetSlot) b) := by
    intro ids
    induction ids with
    | nil => exact .refl
    | cons id ids ih =>
      intro b
      have hone : b.Undisturbed (b.modifySlot id resetSlot) := .modifySlot (by intro t; rfl) id b
      exact hone.trans (ih _)
  unfold handleReset
  dsimp only
  split
  · exact .answer _ a
  · exact (hfold _ a).trans (.answer _ _)

/-! ## Reports -/

theorem handleReadyResult_undisturbed {epoch : ℕ} {readiness : Readiness}
    (hplain : ∀ s, a.sheep[id]? = some s → s.entry.reload ≠ .replacement) :
    a.Undisturbed (a.handleReadyResult w id epoch readiness) := by
  unfold handleReadyResult
  split
  · exact .refl a
  · split
    · exact .refl a
    · next s hs =>
      split
      · exact .refl a
      · next hcur =>
        rw [if_neg (hplain s hs)]
        have hstarting : s.entry.status = .starting := by
          by_contra hne
          exact hcur (Or.inr hne)
        have hset : a.setStatus id .online = a.setSlot id (s.setStatus .online) := by
          simp [setStatus, hs]
        rw [hset]
        have honline : a.Undisturbed (a.setSlot id (s.setStatus .online)) := by
          refine .setSlot hs ?_
          simp [SheepSlot.berth, SheepSlot.setStatus, SheepSlot.name, hstarting]
        refine honline.trans ?_
        unfold wentOnline
        exact .modifySlot (by intro t; rfl) id _

/-! ## Turns -/

theorem handleCommand_undisturbed (h : Inv .none a) {command : Command}
    (hq : a.Quiet (.command command)) : a.Undisturbed (a.handleCommand w command) := by
  have hanswer : ∀ {α : Type} (payload : α → Answer) (r : α × Actor), a.Undisturbed r.2 →
      a.Undisturbed (answering payload r) := fun payload r hr => hr.trans (.answer _ _)
  cases command with
  | list => exact .answer _ a
  | inspect => exact .refl a
  | reset selector => exact handleReset_undisturbed selector a
  | extraRestart id pid epoch observed =>
    exact handleExtraRestart_undisturbed h id pid epoch observed
  | setSheepEnv name key value =>
    exact hanswer _ _ (handleSetSheepEnv_undisturbed name key value a)
  | setSheepEnvBatch name entries force dryRun =>
    exact hanswer _ _ (handleSetSheepEnvBatch_undisturbed name entries force dryRun a)
  | copySheepEnv source target replace keep dryRun reviewed =>
    exact hanswer _ _
      (handleCopySheepEnv_undisturbed source target replace keep dryRun reviewed a)
  | setSheepField name key value | resetSheepField name key =>
    refine hanswer _ _ ?_
    unfold handleSheepField
    split
    · exact .refl a
    · exact applySheepField_undisturbed h name key fun _ _ he => fieldEdit_name he
  | setSheepDogSettings name dog table =>
    refine hanswer _ _ (applySheepField_undisturbed h name "dogs" fun app app' he => ?_)
    rw [← Except.ok.inj he]
  | stop selector => exact beginManual_undisturbed hq .stop .operator .info
  | delete selector => exact beginManual_undisturbed hq .delete .operator .ids
  | restart selector origin =>
    show a.Undisturbed (if a.shuttingDown then _ else _)
    split
    · exact .answer _ a
    · exact restartUnlessDisabled_undisturbed hq origin
  | reload selector =>
    have hnone : a.matchingIds selector = [] := hq
    show a.Undisturbed (if a.shuttingDown then _ else _)
    split
    · exact .answer _ a
    · simp only [handleReload, hnone, List.isEmpty_nil, if_true]
      exact .answer _ a
  | disable selector =>
    have hnone : a.reachedIds selector .enabled = [] := hq
    show a.Undisturbed (a.handleDisable w selector)
    simp only [handleDisable, appsReached, hnone, List.isEmpty_nil, if_true]
    split <;> exact .answer _ a
  | enable selector =>
    have hnone : a.reachedIds selector .disabled = [] := hq
    show a.Undisturbed (a.handleEnable w selector)
    simp only [handleEnable, appsReached, hnone, List.isEmpty_nil, if_true]
    split <;> exact .answer _ a
  | start | registerAtRest | registerDogsAtRest | startDog | scale | applyConfig | disableDog
  | shutdown => exact hq.elim

/-- **A quiet turn leaves the flock where it was.** -/
theorem Quiet.turn (h : Inv .none a) {m : Msg} (hq : a.Quiet m) (w : World) :
    a.Undisturbed (a.turn w m) := by
  refine Undisturbed.trans ?_ (.pruneDisabled _)
  have hforget : ∀ b : Actor, b.Undisturbed (b.forget m) := by
    intro b
    cases m <;> exact .of_slots rfl rfl rfl fun _ => rfl
  refine Undisturbed.trans ?_ (hforget _)
  cases m with
  | command command => exact handleCommand_undisturbed h hq
  | exited => exact hq.elim
  | restartDue timer =>
    refine (Undisturbed.of_slots rfl rfl rfl fun _ => rfl :
      a.Undisturbed (a.receive (.restartDue timer))).trans ?_
    show Undisturbed _ (handleRestartDue w timer.id timer.epoch _)
    unfold handleRestartDue
    split
    · exact .refl _
    · split
      · exact .refl _
      · next s hs =>
        rw [if_neg (hq s hs)]
        exact .refl _
  | readyResult wait readiness =>
    have hreceive : a.Undisturbed (a.receive (.readyResult wait readiness)) := by
      cases readiness <;> exact .of_slots rfl rfl rfl fun _ => rfl
    refine hreceive.trans (handleReadyResult_undisturbed fun s hs => hq s ?_)
    cases readiness <;> exact hs
  | reloadDeadline watchdog =>
    show a.Undisturbed (a.handleReloadDeadline watchdog.name watchdog.stamp)
    unfold handleReloadDeadline
    split
    · exact .refl a
    · next job hj =>
      rw [if_pos (hq job hj)]
      exact .refl a
  | reloadVerified verify readiness =>
    show a.Undisturbed (a.handleReloadVerified w verify.name verify.newId readiness)
    unfold handleReloadVerified
    split
    · exact .refl a
    · next job hj =>
      rw [if_pos (hq job hj)]
      exact .refl a

end Actor

end Supervisor

end Shep
