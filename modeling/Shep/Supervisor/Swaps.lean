import Shep.Supervisor.Helpers.Play
import Shep.Supervisor.Helpers.Saying

/-!
# Supervisor — swaps

A reload's job, the markers of its two instances and the watchdog that
bounds it are written by a dozen handlers, driven by reports that may come
late. **`swaps_safe`** says what holds of them in every reachable state and
across every step: one swap an app, a replacement named by its app's job,
a watchdog on its way for every job, no overlapping drain before the
replacement has said it is ready, and a drainee that an aborted swap gives
back. **`replacement_orphaned`** is the one state with a marked replacement
and no job: a shutdown has dropped every job.
-/

namespace Shep

namespace Supervisor

/-- **What holds of swaps in a state.** -/
structure SwapsSafe (a : Actor) : Prop where
  /-- No two apps' jobs name one registered instance. -/
  alone : ∀ (m n : String) (job job' : ReloadJob) (id : ℕ) (s : SheepSlot),
    a.reloads[m]? = some job → a.reloads[n]? = some job' → job.names id = true →
    job'.names id = true → a.sheep[id]? = some s → m = n ∧ s.name = n
  phase : ∀ (n : String) (job : ReloadJob), a.reloads[n]? = some job →
    (job.swap.newId = none ↔ job.swap.phase = .drainFirst)
  distinct : ∀ (n : String) (job : ReloadJob), a.reloads[n]? = some job →
    job.swap.newId ≠ some job.swap.oldId
  marked : a.shuttingDown = false → ∀ (id : ℕ) (s : SheepSlot), a.sheep[id]? = some s →
    s.entry.reload = .replacement →
    ∃! n : String, ∃ job : ReloadJob, a.reloads[n]? = some job ∧ job.swap.newId = some id
  watched : ∀ (n : String) (job : ReloadJob), a.reloads[n]? = some job →
    ⟨n, job.deadline⟩ ∈ a.watchdogs
  stamps : a.watchdogs.Nodup
  grounded : Grounded a.trace

namespace Actor

variable {a : Actor} {s t : SheepSlot} {n : String} {job : ReloadJob} {w : World}

theorem Inv.swapsSafe (h : Inv .none a) (hg : Grounded a.trace) : SwapsSafe a where
  alone := by
    intro m n job job' id s hj hj' hid hid' hs
    have hm : s.name = m :=
      h.name_of_named hs hj ((ReloadJob.names_iff.1 hid).imp_right Or.inl)
    have hn : s.name = n :=
      h.name_of_named hs hj' ((ReloadJob.names_iff.1 hid').imp_right Or.inl)
    exact ⟨hm.symm.trans hn, hn⟩
  phase := fun n job hj => (h.jobs n job hj).phase
  distinct := fun n job hj => (h.jobs n job hj).distinct
  marked := by
    intro hup id s hs hr
    obtain ⟨job, hj, hnew, -⟩ := (h.marks.marked id s hs hr (by simp)).2 hup
    refine ⟨s.name, ⟨job, hj, hnew⟩, ?_⟩
    rintro m ⟨job', hj', hnew'⟩
    exact (h.reloads_of_newId hs hj' hnew').symm
  watched := fun n job hj => (h.jobs n job hj).watched
  stamps := h.watchdogs.nodup
  grounded := hg

theorem reachable_grounded {dogBinaries : List (String × String)}
    {h : List (Actor × World × Msg)} (hr : Run Actor.Step (.init dogBinaries) h a) :
    Grounded a.trace :=
  run_keeps (C := fun _ => True) (Q := fun a => Grounded a.trace)
    (P := fun _ p => Grounded p.actor.trace) (fun _ _ _ h => h)
    (fun _ _ _ _ _ h hm => hm.said.grounded h) (fun _ _ h => h) hr (fun _ _ => trivial)
    (Actor.inv_init dogBinaries) grounded_nil

theorem turn_claimed (h : Inv .none a) {m : Msg} (hadm : a.admits m) (w : World) :
    ∃ new, (a.turn w m).trace = new ++ a.trace ∧
      ∀ id manual cap, .claimed id manual cap ∈ new → (⟨a, w, m⟩ : Turn).Claims cap id := by
  obtain ⟨b, hm, hb⟩ := turn_moves h hadm w
  have hall := hm.keeps (P := fun p => ∃ new, p.actor.trace = new ++ a.trace ∧
    ∀ id manual cap, .claimed id manual cap ∈ new → (⟨a, w, m⟩ : Turn).Claims cap id) h
    ⟨[], rfl, by simp⟩ (fun p q _ hP hmove => ?_)
  · rw [hb]
    exact hall
  · obtain ⟨new, hnew, hc⟩ := hP
    obtain ⟨more, hmore, hc'⟩ := hmove.said.claimed
    refine ⟨more ++ new, by rw [hmore, hnew, List.append_assoc], fun id manual cap hmem => ?_⟩
    rcases List.mem_append.1 hmem with hmem | hmem
    · exact hc' id manual cap hmem
    · exact hc id manual cap hmem

/-! ## Aborts -/

/-- The messages that abort the swap of `n` before its drain: its deadline,
its replacement's readiness wait timing out, or its replacement's exit. -/
def Aborts (a : Actor) (n : String) (job : ReloadJob) (m : Msg) : Prop :=
  match m with
  | .reloadDeadline watchdog => watchdog = ⟨n, job.deadline⟩
  | .readyResult wait readiness => readiness = .timedOut ∧ job.swap.newId = some wait.id ∧
      ∃ t, a.sheep[wait.id]? = some t ∧ t.entry.reload = .replacement ∧
        t.entry.status = .starting ∧ t.epoch = wait.epoch
  | .exited task _ _ => job.swap.newId = some task.id ∧
      ∃ t, a.sheep[task.id]? = some t ∧ t.entry.reload = .replacement
  | _ => False

/-- The end of an uncommitted swap, as its drainee sees it. -/
structure GivenBack (b : Actor) (n : String) (oldId : ℕ) (s : SheepSlot) : Prop where
  gone : b.reloads[n]? = none
  drainee : b.sheep[oldId]? = some s.restore

variable {b : Actor} {x : Hole} {oldId : ℕ}

theorem abortReload_givenBack (h : Inv x a) (hj : a.reloads[n]? = some job)
    (hphase : job.swap.phase = .awaitReady) (hs : a.sheep[job.swap.oldId]? = some s) :
    GivenBack (a.abortReload n) n job.swap.oldId s :=
  ⟨by simp [abortReload_reloads], abortReload_drainee h hj hphase hs⟩

theorem GivenBack.frame {id : ℕ} {b' : Actor} (h : GivenBack b n oldId s) (hf : Frame id b b')
    (hne : oldId ≠ id) : GivenBack b' n oldId s :=
  ⟨by rw [hf.reloads, h.gone], by rw [hf.sheep oldId hne, h.drainee]⟩

theorem handleReloadDeadline_givesBack (h : Inv .none a) (hj : a.reloads[n]? = some job)
    (hphase : job.swap.phase = .awaitReady) (hs : a.sheep[job.swap.oldId]? = some s) :
    GivenBack (a.handleReloadDeadline n job.deadline) n job.swap.oldId s := by
  have habort : a.handleReloadDeadline n job.deadline = a.abortReload n := by
    simp [handleReloadDeadline, hj, hphase]
  rw [habort]
  exact abortReload_givenBack h hj hphase hs

theorem handleReadyResult_givesBack (h : Inv .none a) (hj : a.reloads[n]? = some job)
    (hphase : job.swap.phase = .awaitReady) (hs : a.sheep[job.swap.oldId]? = some s) {id : ℕ}
    (hnew : job.swap.newId = some id) (ht : a.sheep[id]? = some t)
    (hr : t.entry.reload = .replacement) (hst : t.entry.status = .starting) :
    GivenBack (a.handleReadyResult w id t.epoch .timedOut) n job.swap.oldId s := by
  have hup := h.up_of_job hj
  obtain rfl := h.reloads_of_newId ht hj hnew
  obtain ⟨job', hfound, hj', -, -⟩ := reloadOf_replacement h ht hr hup
  obtain rfl := Option.some.inj (hj.symm.trans hj')
  have habort : a.handleReadyResult w id t.epoch .timedOut = a.abortReload t.name := by
    simp [handleReadyResult, hup, ht, hst, hr, reloadReadyResult, hfound, hj, hs]
  rw [habort]
  exact abortReload_givenBack h hj hphase hs

/-- The replacement exits. -/
theorem handleExited_givesBack (h : Inv .none a) {task : Task} (htask : task ∈ a.tasks)
    (hj : a.reloads[n]? = some job) (hphase : job.swap.phase = .awaitReady)
    (hs : a.sheep[job.swap.oldId]? = some s) (hnew : job.swap.newId = some task.id)
    (ht : a.sheep[task.id]? = some t) (hr : t.entry.reload = .replacement)
    (outcome : ExitOutcome) (oomKilled : Bool) :
    GivenBack ((a.receive (.exited task outcome oomKilled)).handleExited w task.id outcome oomKilled)
      n job.swap.oldId s := by
  obtain ⟨t', ht', hctl, -⟩ := h.tasks.owned task htask
  obtain rfl := Option.some.inj (ht.symm.trans ht')
  have hem := emptied_ok (c := ⟨a, w, .exited task outcome oomKilled⟩) h rfl htask ht hctl rfl
  have hne : job.swap.oldId ≠ task.id := fun e => (h.jobs n job hj).distinct (e ▸ hnew)
  have hinv := (hem.unmark hr).inv hem.inv
  have hf : Frame task.id (a.emptied task t outcome) ((a.emptied task t outcome).clearReload task.id) :=
    .modifySlot task.id _ _
  have hj' : ((a.emptied task t outcome).clearReload task.id).reloads[n]? = some job := by
    rw [hf.reloads, hem.reloads, hj]
  have hs' : ((a.emptied task t outcome).clearReload task.id).sheep[job.swap.oldId]? = some s := by
    rw [hf.sheep _ hne, hem.other _ hne, hs]
  -- the job found for the exit is the one its app has
  have hfound : ((a.emptied task t outcome).clearReload task.id).uncommittedSwapOf task.id =
      some n := by
    cases hu : ((a.emptied task t outcome).clearReload task.id).uncommittedSwapOf task.id with
    | none =>
      have hfalse := jobWhere_none hu hj'
      simp [ReloadJob.names, hnew, hphase] at hfalse
    | some m =>
      obtain ⟨job', hjm, hp⟩ := jobWhere_some hu
      have hnames : job'.names task.id = true := by
        simp only [Bool.and_eq_true] at hp
        exact hp.2
      rw [hf.reloads] at hjm
      rw [(hem.newId_of_names hr hjm hnames).1, h.reloads_of_newId ht hj hnew]
  have hall : (a.receive (.exited task outcome oomKilled)).handleExited w task.id outcome oomKilled =
      (((a.emptied task t outcome).clearReload task.id).abortReload n).deregisterOnExit task.id := by
    have hget : (a.receive (.exited task outcome oomKilled)).sheep[task.id]? = some t := ht
    have hset : (a.receive (.exited task outcome oomKilled)).setSlot task.id (t.exited outcome) =
        a.emptied task t outcome := rfl
    unfold handleExited
    simp only [hget, hset, hr, hfound]
  rw [hall]
  exact (abortReload_givenBack hinv hj' hphase hs').frame (.deregisterOnExit task.id _) hne

/-- **An aborted swap gives its drainee back.** -/
theorem turn_givesBack (h : Inv .none a) {m : Msg} (hadm : a.admits m)
    (hj : a.reloads[n]? = some job) (hphase : job.swap.phase = .awaitReady)
    (hs : a.sheep[job.swap.oldId]? = some s) (habort : a.Aborts n job m) (w : World) :
    GivenBack (a.turn w m) n job.swap.oldId s := by
  unfold Aborts at habort
  split at habort
  · subst habort
    obtain ⟨hg, hd⟩ := handleReloadDeadline_givesBack h hj hphase hs
    exact ⟨hg, hd⟩
  · obtain ⟨rfl, hnew, t, ht, hr, hst, hepoch⟩ := habort
    obtain ⟨hg, hd⟩ := handleReadyResult_givesBack (w := w) h hj hphase hs hnew ht hr hst
    rw [hepoch] at hg hd
    exact ⟨hg, hd⟩
  · obtain ⟨hnew, t, ht, hr⟩ := habort
    obtain ⟨hg, hd⟩ := handleExited_givesBack (w := w) h hadm hj hphase hs hnew ht hr _ _
    exact ⟨hg, hd⟩
  · exact habort.elim

/-- **A deadline that has passed bounds no job any more.** -/
theorem turn_unwatched (h : Inv .none a) (watchdog : Watchdog) (w : World) {m : String}
    (hj : (a.turn w (.reloadDeadline watchdog)).reloads[m]? = some job) :
    (⟨m, job.deadline⟩ : Watchdog) ≠ watchdog :=
  handleReloadDeadline_unwatched h watchdog.name watchdog.stamp hj

end Actor

/-- The status an abort leaves a drainee in: it goes back to serving where
its process still runs and nothing else has claimed it. -/
theorem SheepSlot.restore_status (s : SheepSlot) : s.restore.entry.status =
    if s.ctl.isSome && s.manual.isNone then restoredStatus s else s.entry.status := by
  unfold SheepSlot.restore
  dsimp only [SheepSlot.setReload]
  split <;> rfl

/-- **Swaps are safe in every reachable state and across every step.** -/
theorem swaps_safe {dogBinaries : List (String × String)} {h : List (Actor × World × Msg)}
    {a : Actor} (hr : Run Actor.Step (.init dogBinaries) h a) :
    SwapsSafe a ∧ ∀ (e : World × Msg) (a' : Actor), Actor.Step a e a' →
      (∃ new, a'.trace = new ++ a.trace ∧ ∀ id manual cap, .claimed id manual cap ∈ new →
        (⟨a, e.1, e.2⟩ : Turn).Claims cap id) ∧
      (∀ watchdog, e.2 = .reloadDeadline watchdog → ∀ (n : String) (job : ReloadJob),
        a'.reloads[n]? = some job → ⟨n, job.deadline⟩ ≠ watchdog) ∧
      ∀ (n : String) (job : ReloadJob) (s : SheepSlot), a.reloads[n]? = some job →
        job.swap.phase = .awaitReady → a.sheep[job.swap.oldId]? = some s → a.Aborts n job e.2 →
        a'.reloads[n]? = none ∧ ∃ s', a'.sheep[job.swap.oldId]? = some s' ∧
          s'.entry.reload = .none ∧ s'.entry.status =
            if s.ctl.isSome && s.manual.isNone then restoredStatus s else s.entry.status := by
  have hinv := Actor.reachable_inv hr
  refine ⟨Actor.Inv.swapsSafe hinv (Actor.reachable_grounded hr), ?_⟩
  rintro ⟨w, m⟩ a' ⟨-, hadm, rfl⟩
  refine ⟨Actor.turn_claimed hinv hadm w, ?_, ?_⟩
  · rintro watchdog rfl n job hj
    exact Actor.turn_unwatched hinv watchdog w hj
  · intro n job s hj hphase hs habort
    obtain ⟨hgone, hback⟩ := Actor.turn_givesBack hinv hadm hj hphase hs habort w
    exact ⟨hgone, s.restore, hback, s.restore_reload, s.restore_status⟩

/-! ## Runs -/

/-- A reload of a probed app, its replacement not ready yet. -/
def midSwap : Actor := (Actor.init []).play (overlapping.take 3)

theorem midSwap_run : ∃ h, Run Actor.Step (.init []) h midSwap := by
  have hplay : (Actor.init []).Playable (overlapping.take 3) := by decide +kernel
  exact ⟨_, hplay.run⟩

theorem midSwap_job : midSwap.reloads["web"]? =
    some ⟨[], .overlap, ⟨0, some 1, .awaitReady⟩, 0⟩ := by
  decide +kernel

/-- The deadline puts the old instance back in service. -/
theorem swaps_safe_awaiting : ∃ s', (midSwap.turn plain (.reloadDeadline ⟨"web", 0⟩)).sheep[0]? =
    some s' ∧ s'.entry.reload = .none ∧ s'.entry.status = .online := by
  obtain ⟨h, hr⟩ := midSwap_run
  have hslot : midSwap.sheep[0]?.map (fun s => (s.ctl.isSome && s.manual.isNone, s.readyFailed)) =
      some (true, false) := by decide +kernel
  obtain ⟨s, hs, he⟩ := Option.map_eq_some_iff.1 hslot
  obtain ⟨hlive, hready⟩ := Prod.mk.inj he
  have hstep : Actor.Step midSwap (plain, .reloadDeadline ⟨"web", 0⟩)
      (midSwap.turn plain (.reloadDeadline ⟨"web", 0⟩)) :=
    ⟨by decide +kernel, by decide +kernel, rfl⟩
  obtain ⟨-, s', hs', hr', hst⟩ :=
    ((swaps_safe hr).2 _ _ hstep).2.2 "web" _ s midSwap_job rfl hs rfl
  refine ⟨s', hs', hr', ?_⟩
  rw [hst, hlive, if_pos rfl]
  simp [restoredStatus, hready]

/-- **A replacement no job names**, once a shutdown has dropped every job,
**and a drainee its abort leaves `Stopping`**, since a stop has claimed it. -/
theorem replacement_orphaned :
    (∃ (h : List (Actor × World × Msg)) (a : Actor) (id : ℕ) (s : SheepSlot),
      Run Actor.Step (.init []) h a ∧ a.sheep[id]? = some s ∧ s.entry.reload = .replacement ∧
        ∀ n : String, a.reloads[n]? = none) ∧
    ∃ (h : List (Actor × World × Msg)) (a a' : Actor) (job : ReloadJob) (s s' : SheepSlot),
      Run Actor.Step (.init []) h a ∧ a.reloads["web"]? = some job ∧
        job.swap.phase = .awaitReady ∧ a.sheep[job.swap.oldId]? = some s ∧
        Actor.Step a (plain, .reloadDeadline ⟨"web", job.deadline⟩) a' ∧
        a'.sheep[job.swap.oldId]? = some s' ∧ s'.entry.status ≠ restoredStatus s := by
  refine ⟨?_, ?_⟩
  · have hplay : (Actor.init []).Playable (overlapping.take 3 ++ [(plain, .command .shutdown)]) := by
      decide +kernel
    have hslot : (((Actor.init []).play (overlapping.take 3 ++
        [(plain, .command .shutdown)])).sheep[1]?).map (fun s => s.entry.reload) =
        some .replacement := by decide +kernel
    obtain ⟨s, hs, he⟩ := Option.map_eq_some_iff.1 hslot
    have hdown : ((Actor.init []).play (overlapping.take 3 ++
        [(plain, .command .shutdown)])).shuttingDown = true := by decide +kernel
    exact ⟨_, _, 1, s, hplay.run, hs, he,
      (Actor.reachable_inv hplay.run).marks.dropped hdown⟩
  · have hplay : (Actor.init []).Playable (overlapping.take 3 ++
        [(plain, .command (.stop (.id 0)))]) := by decide +kernel
    have hjob : ((Actor.init []).play (overlapping.take 3 ++
        [(plain, .command (.stop (.id 0)))])).reloads["web"]? =
        some ⟨[], .overlap, ⟨0, some 1, .awaitReady⟩, 0⟩ := by decide +kernel
    have hslot : (((Actor.init []).play (overlapping.take 3 ++
        [(plain, .command (.stop (.id 0)))])).sheep[0]?).map restoredStatus = some .online := by
      decide +kernel
    have hleft : ((((Actor.init []).play (overlapping.take 3 ++
        [(plain, .command (.stop (.id 0)))])).turn plain (.reloadDeadline ⟨"web", 0⟩)).sheep[0]?).map
        (fun s => s.entry.status) = some .stopping := by decide +kernel
    obtain ⟨s, hs, he⟩ := Option.map_eq_some_iff.1 hslot
    obtain ⟨s', hs', he'⟩ := Option.map_eq_some_iff.1 hleft
    refine ⟨_, _, _, _, s, s', hplay.run, hjob, rfl, hs,
      ⟨by decide +kernel, by decide +kernel, rfl⟩, hs', ?_⟩
    rw [he, he']
    simp

end Supervisor

end Shep
