import Shep.Supervisor.Helpers.Swapping

/-!
# Supervisor — exits and timers as moves

`handle_exited` written as moves, from the move that empties the slot to
the one that settles it: the reload arms, the decision an ordinary exit
ends in, and what a reload does once its drainee is reaped. A back-off
timer and a readiness wait close the module.
-/

namespace Shep

namespace Supervisor

namespace Actor

variable {c : Turn} {w : World} {x : Hole} {a : Actor} {id : ℕ} {s taken : SheepSlot}
variable {n : String} {job : ReloadJob}

/-! ## What a respawn leaves -/

/-- A slot left with no process by a refused spawn. -/
def Refused (s s' : SheepSlot) : Prop :=
  s'.entry.reload = s.entry.reload ∧
    (s'.ctl = none → s'.entry.status = .errored ∨ s'.entry.status = .waitingRestart)

theorem get_setSlot (id : ℕ) (s : SheepSlot) (a : Actor) : (a.setSlot id s).sheep[id]? = some s := by
  simp [setSlot]

theorem refuseSpawn_left (id : ℕ) (s : SheepSlot) (err : AssembleError) (a : Actor) :
    ∃ s', (a.refuseSpawn id s err).sheep[id]? = some s' ∧ Refused s s' := by
  unfold refuseSpawn
  split
  · exact ⟨_, get_setSlot _ _ _, rfl, fun _ => Or.inl rfl⟩
  · dsimp only
    split
    · exact ⟨_, get_setSlot _ _ _, rfl, fun _ => Or.inl rfl⟩
    · exact ⟨_, get_setSlot _ _ _, rfl, fun _ => Or.inr rfl⟩

theorem respawnFrom_left (w : World) (id : ℕ) (manually : Bool) (s : SheepSlot) (a : Actor) :
    ∃ s', (a.respawnFrom w id manually s).sheep[id]? = some s' ∧ Refused s s' := by
  unfold respawnFrom
  split
  · exact ⟨_, get_setSlot _ _ _, rfl, fun _ => Or.inl rfl⟩
  · next credentials _ =>
    dsimp only
    split
    · exact refuseSpawn_left id (s.identified credentials) _ a
    · split
      · exact ⟨_, get_setSlot _ _ _, rfl, fun _ => Or.inl rfl⟩
      · split <;> exact ⟨_, get_setSlot _ _ _, rfl, by simp [SheepSlot.relaunched]⟩

/-- A respawn of an enabled app leaves its slot registered: running,
errored or waiting. -/
theorem respawn_left (manually : Bool) (hs : a.sheep[id]? = some s) (hen : s.name ∉ a.disabled) :
    ∃ s', (a.respawn w id manually).sheep[id]? = some s' ∧ Refused s s' := by
  have hdis : ¬ a.isDisabled s.name = true := by simpa [isDisabled] using hen
  have hreload : s.promotePending.entry.reload = s.entry.reload := by
    unfold SheepSlot.promotePending
    split <;> rfl
  unfold respawn
  simp only [hs, if_neg hdis]
  obtain ⟨s', hs', hr, hst⟩ := respawnFrom_left w id manually s.promotePending a
  exact ⟨s', hs', hr.trans hreload, hst⟩

/-! ## Settling an exit -/

/-- An exit being settled: its slot is still registered and in no swap, a
pending delete drops no job's replacement unnoticed, and the swap it was
half of is over, or committed. -/
structure Settling (c : Turn) (a : Actor) (id : ℕ) (taken s : SheepSlot) : Prop where
  inv : Inv (.exiting id taken) a
  slot : a.sheep[id]? = some s
  idle : s.ctl = none
  unmarked : s.entry.reload = .none
  taken_wf : taken.WellFormed
  taken_live : taken.ctl.isSome = true
  drops : taken.pendingDelete = true →
    (∃ (n : String) (job : ReloadJob), a.reloads[n]? = some job ∧ job.swap.newId = some id) →
    c.DropsReplacement id
  drained : ∀ (n : String) (job : ReloadJob) (q : Option ℕ), a.reloads[n]? = some job →
    job.swap.oldId = id → taken.entry.reload ≠ .drainee q
  released : taken.entry.reload = .replacement → ¬ c.Uncommitted id ∧
    ∀ (n : String) (job : ReloadJob), a.reloads[n]? = some job → job.swap.phase = .awaitReady →
      job.swap.newId ≠ some id
  timers : a.timers = c.before.timers

namespace Settling

theorem deregister (h : Settling c a id taken s) (hdel : taken.pendingDelete = true)
    (info : ProcessInfo) :
    Moves c ⟨.exiting id taken, a⟩ ⟨.none, (a.removeSlot id).resolvePending id info⟩ := by
  refine .head (.deregister h.slot h.idle (h.drops hdel))
    (.single (.resolve info ⟨?_, ?_⟩ ?_ ?_ fun hr => ⟨?_, (h.released hr).2⟩))
  all_goals simp [removeSlot]

/-- An exit settled with its slot still registered. -/
theorem settle (h : Settling c a id taken s) {b : Actor} {t : SheepSlot}
    (ht : b.sheep[id]? = some t) (hreloads : b.reloads = a.reloads)
    (hreload : t.entry.reload = s.entry.reload) (hdel : taken.pendingDelete = false)
    (hidle : t.ctl = none → t.entry.status = .stopped ∨ t.entry.status = .errored ∨
      t.entry.status = .waitingRestart)
    (hstop : ∀ k o, taken.manual = some ⟨k, o⟩ → k ≠ .restart →
      t.ctl = none ∧ t.entry.status = .stopped) (info : ProcessInfo) :
    Move c ⟨.exiting id taken, b⟩ ⟨.none, b.resolvePending id info⟩ := by
  have hleft : ∀ t', b.sheep[id]? = some t' → t' = t :=
    fun t' ht' => Option.some.inj (ht'.symm.trans ht)
  refine .resolve info ⟨by simp [hdel], fun t' ht' => ?_⟩ (fun n job q hj hold hq => ?_)
    (fun t' q ht' => ?_) fun hr => ⟨fun hu => absurd hu (h.released hr).1, ?_⟩
  · rw [hleft t' ht']
    exact ⟨by simp [hreload, h.unmarked], hidle, hstop⟩
  · rw [hreloads] at hj
    exact absurd hq (h.drained n job q hj hold)
  · rw [hleft t' ht', hreload, h.unmarked]
    simp
  · rw [hreloads]
    exact (h.released hr).2

theorem rest (h : Settling c a id taken s) {s' : SheepSlot} {status : ProcStatus}
    (hrest : s.RestsAs status s') (hheir : s.Heir c.world s')
    (hst : status = .stopped ∨ status = .errored ∧ taken.manual = none)
    (hdel : taken.pendingDelete = false) (info : ProcessInfo) :
    Moves c ⟨.exiting id taken, a⟩ ⟨.none, (a.setSlot id s').resolvePending id info⟩ := by
  have hmove : Move c ⟨.exiting id taken, a⟩ ⟨.exiting id taken, a.setSlot id s'⟩ :=
    .rest h.slot h.idle hrest (hst.imp_right fun e => ⟨e.1, Or.inr ⟨taken, rfl, e.2⟩⟩) hheir
  refine .head hmove (.single (h.settle (get_setSlot _ _ _) rfl hrest.reload hdel (fun _ => ?_)
    (fun k o hm hk => ⟨hrest.ctl, ?_⟩) info))
  · rw [hrest.status]
    rcases hst with e | e
    · exact Or.inl e
    · exact Or.inr (Or.inl e.1)
  · rw [hrest.status]
    rcases hst with e | e
    · exact e
    · rw [e.2] at hm
      cases hm

theorem wait (h : Settling c a id taken s) {s' : SheepSlot} (hrest : s.RestsAs .waitingRestart s')
    (hheir : s.Heir c.world s') (hman : taken.manual = none) (hdel : taken.pendingDelete = false) (delay : Option ℕ)
    (info : ProcessInfo) :
    Moves c ⟨.exiting id taken, a⟩ ⟨.none, (a.backOff id s' delay).resolvePending id info⟩ := by
  have hmove : Move c ⟨.exiting id taken, a⟩ ⟨.exiting id taken, a.backOff id s' delay⟩ :=
    .backOff delay h.slot h.idle hrest (Or.inr ⟨taken, rfl, hman⟩)
      (Or.inl ⟨⟨taken, rfl⟩, h.timers⟩) hheir
  have hleft : (a.backOff id s' delay).sheep[id]? = some s' := by
    simp [backOff, scheduleRestart, setSlot]
  exact .head hmove (.single (h.settle hleft rfl hrest.reload hdel
    (fun _ => Or.inr (Or.inr hrest.status)) (by simp [hman]) info))

/-- The decision an ordinary exit ends in. -/
theorem decision (h : Settling c a id taken s) {t : SheepSlot} (hag : s.Agrees t)
    (hheir : s.Heir c.world t) {decision : Decision} {deleting : Bool} (hdel : deleting = taken.pendingDelete)
    (hman : decision ≠ .cleanStop → taken.manual = none) :
    Moves c ⟨.exiting id taken, a⟩ ⟨.none, a.settleDecision id t decision deleting⟩ := by
  have hrest : ∀ status, s.RestsAs status (t.setStatus status) := by
    have hwf := h.inv.wellFormed h.slot
    exact fun status => { hag with
      status := rfl
      pid := hag.pid.trans (hwf.idle_pid h.idle)
      startedAt := hag.startedAt.trans (hwf.idle_startedAt h.idle)
      ctl := hag.ctl.trans h.idle }
  have hheir' : ∀ status, s.Heir c.world (t.setStatus status) :=
    fun _ => hheir.same rfl rfl rfl rfl
  have hkeep : taken.manual = none → taken.pendingDelete = false := by
    intro hm
    cases hd : taken.pendingDelete with
    | false => rfl
    | true =>
      have hsome := (h.taken_wf.doomed hd).1
      simp [hm] at hsome
  cases decision with
  | restart delay =>
    have hm := hman (by simp)
    exact h.wait (hrest _) (hheir' _) hm (hkeep hm) delay _
  | errored | sandboxRefused =>
    have hm := hman (by simp)
    exact h.rest (hrest _) (hheir' _) (Or.inr ⟨rfl, hm⟩) (hkeep hm) _
  | cleanStop =>
    cases hd : taken.pendingDelete with
    | false =>
      simp only [settleDecision, hdel, hd]
      exact h.rest (hrest _) (hheir' _) (Or.inl rfl) hd _
    | true =>
      simp only [settleDecision, hdel, hd, if_true]
      exact h.deregister hd _

/-- An exit claimed as a restart, of an enabled app. -/
theorem restart (h : Settling c a id taken s) {o : CommandOrigin}
    (hman : taken.manual = some ⟨.restart, o⟩) (hdel : taken.pendingDelete = false)
    (hup : a.shuttingDown = false) (hen : s.name ∉ a.disabled) (manually : Bool) :
    Moves c ⟨.exiting id taken, a⟩
      ⟨.none, ((a.setSlot id { s with entry := { s.entry with budget := s.entry.budget.reset }
        }).respawn c.world id manually).resolveExit id⟩ := by
  have hag := (SheepSlot.Agrees.refl (h.inv.wellFormed h.slot)).setBudget s.entry.budget.reset
  have hedit : Move c ⟨.exiting id taken, a⟩ ⟨.exiting id taken, a.setSlot id _⟩ :=
    .edit _ h.slot hag (Or.inr ((SheepSlot.Heir.refl s).setBudget _))
  have hs' : (a.setSlot id { s with entry := { s.entry with budget := s.entry.budget.reset }
      }).sheep[id]? = some { s with entry := { s.entry with budget := s.entry.budget.reset } } := by
    simp [setSlot]
  have hresp := respawn_moves (c := c) (hedit.inv h.inv) hs' h.idle hup
    (fun _ => ⟨rfl, ⟨o, hman⟩, hdel⟩) manually (fun _ _ _ _ _ => Or.inl ⟨⟨taken, rfl⟩, h.timers⟩)
  obtain ⟨t, ht, hreload, hst⟩ := respawn_left (w := c.world) manually hs' hen
  refine .head hedit (hresp.trans ?_)
  unfold resolveExit
  simp only [ht]
  have hreloads : ((a.setSlot id { s with entry := { s.entry with budget := s.entry.budget.reset }
      }).respawn c.world id manually).reloads = a.reloads := (Frame.respawn c.world id manually _).reloads
  refine .single (h.settle ht hreloads hreload hdel (fun hc => Or.inr (hst hc))
    (fun k o' hm hk => ?_) _)
  rw [hman] at hm
  simp only [Option.some.injEq, PendingManual.mk.injEq] at hm
  exact absurd hm.1.symm hk

end Settling

theorem decideOnExit_unclaimed {app : AppConfig} {budget : RestartBudget} {uptime : ℕ}
    {exit : ExitOutcome} {manualStop oomKilled : Bool}
    (h : (decideOnExit app budget uptime exit manualStop oomKilled).1 ≠ .cleanStop) :
    manualStop = false := by
  cases manualStop with
  | false => rfl
  | true => simp [decideOnExit] at h

/-- **`settle_exit` as moves.** -/
theorem settleExit_moves (h : Settling c a id taken s) (outcome : ExitOutcome) (oomKilled : Bool) :
    Moves c ⟨.exiting id taken, a⟩ ⟨.none, a.settleExit c.world id taken outcome oomKilled⟩ := by
  have hdeleting : (taken.manual.map PendingManual.kind == some .delete || taken.pendingDelete) =
      taken.pendingDelete := by
    cases hd : taken.pendingDelete with
    | true => simp
    | false =>
      cases hm : taken.manual with
      | none => rfl
      | some m =>
        obtain ⟨k, o⟩ := m
        cases k with
        | delete =>
          have := h.taken_wf.deleting o hm
          simp [hd] at this
        | stop | restart => rfl
  unfold settleExit
  simp only [h.slot, hdeleting]
  split
  · next hnone =>
    have hstarted := h.taken_wf.startedAt
    simp [hnone, h.taken_live] at hstarted
  · split
    · next hcond =>
      simp only [Bool.and_eq_true, Bool.not_eq_true', beq_iff_eq, Option.map_eq_some_iff] at hcond
      obtain ⟨⟨⟨⟨m, hm, hk⟩, hup⟩, hdel⟩, hdis⟩ := hcond
      obtain ⟨k, o⟩ := m
      simp only at hk
      subst hk
      exact h.restart hm hdel hup (by simpa [isDisabled] using hdis) _
    · refine h.decision ((SheepSlot.Agrees.refl (h.inv.wellFormed h.slot)).setBudget _)
        ((SheepSlot.Heir.refl s).setBudget _) rfl ?_
      intro hne
      simpa using decideOnExit_unclaimed hne

/-! ## The reload arms -/

theorem deregisterOnExit_moves (hs : a.sheep[id]? = some s) (hctl : s.ctl = none)
    (hnew : ∀ (n : String) (job : ReloadJob), a.reloads[n]? = some job →
      job.swap.newId ≠ some id) :
    Moves c ⟨.exiting id taken, a⟩ ⟨.none, a.deregisterOnExit id⟩ := by
  unfold deregisterOnExit
  simp only [hs]
  refine .head (.deregister hs hctl ?_)
    (.single (.resolve _ ⟨?_, ?_⟩ ?_ ?_ fun _ => ⟨?_, fun n job hj _ => hnew n job hj⟩))
  · rintro ⟨n, job, hj, he⟩
    exact absurd he (hnew n job hj)
  all_goals simp [removeSlot]

/-- A drainee's exit: no job calls it a replacement. -/
structure Reaping (a : Actor) (id : ℕ) (taken : SheepSlot) : Prop where
  inv : Inv (.exiting id taken) a
  slot : ∃ s, a.sheep[id]? = some s ∧ s.ctl = none
  not_new : ∀ (n : String) (job : ReloadJob), a.reloads[n]? = some job → job.swap.newId ≠ some id

/-- The first half of `reap_drainee`: a serial drain spawns its
replacement. -/
def reapSpawn (w : World) (oldId : ℕ) (a : Actor) : Actor :=
  match a.serialDrainOf oldId with
  | none => a
  | some name =>
    match a.sheep[oldId]? with
    | none => a.panic "reap_drainee: unknown id"
    | some slot =>
      if slot.pendingDelete then a.dropJob name else a.spawnSerialReplacement w name oldId

theorem reapDrainee_eq (w : World) (oldId : ℕ) (a : Actor) :
    a.reapDrainee w oldId = ((a.reapSpawn w oldId).deregisterOnExit oldId).reapJob w oldId := rfl

/-- What the serial spawn leaves: a reaping still, with no serial drain of
the id left and every queue as it was. -/
structure Reaped (a a' : Actor) (id : ℕ) (taken : SheepSlot) : Prop extends
    Reaping a' id taken where
  spent : ∀ (n : String) (job : ReloadJob), a'.reloads[n]? = some job → job.swap.oldId = id →
    job.swap.phase ≠ .drainFirst
  queues : ∀ (n : String) (job : ReloadJob), a'.reloads[n]? = some job →
    ∃ job₀ : ReloadJob, a.reloads[n]? = some job₀ ∧ job₀.queue = job.queue

/-- A serial drain whose job is dropped: the spawn was refused. -/
theorem Reaping.dropped (h : Reaping a id taken) (hj : a.reloads[n]? = some job)
    (hphase : job.swap.phase = .drainFirst) (hold : job.swap.oldId = id) :
    Moves c ⟨.exiting id taken, a⟩ ⟨.exiting id taken, a.dropJob n⟩ ∧
      Reaped a (a.dropJob n) id taken := by
  have hjob := h.inv.jobs n job hj
  have hmove : Moves c ⟨.exiting id taken, a⟩ ⟨.exiting id taken, a.dropJob n⟩ := by
    refine .single (.drop n (fun job' newId _ hj' hnew => ?_) fun job' hj' => ?_)
    · rw [hj] at hj'
      rw [← Option.some.inj hj', hjob.phase.2 hphase] at hnew
      cases hnew
    · rw [hj] at hj'
      rw [← Option.some.inj hj', hold]
      exact Or.inr (Or.inr (Or.inr ⟨taken, rfl⟩))
  have hother : ∀ (m : String) (job' : ReloadJob), (a.dropJob n).reloads[m]? = some job' →
      m ≠ n ∧ a.reloads[m]? = some job' := by
    intro m job' hj'
    simp only [dropJob, Table.get_erase] at hj'
    split at hj'
    · cases hj'
    · next hne => exact ⟨hne, hj'⟩
  obtain ⟨s, hs, hctl⟩ := h.slot
  refine ⟨hmove, ⟨⟨hmove.inv h.inv, ⟨s, hs, hctl⟩, ?_⟩, ?_, ?_⟩⟩
  · exact fun m job' hj' => h.not_new m job' (hother m job' hj').2
  · intro m job' hj' hold' _
    -- the id's app has one job, and that is the one dropped
    obtain ⟨hne, hj'⟩ := hother m job' hj'
    have hm := (h.inv.jobs m job' hj').old_name s (hold' ▸ hs)
    have hn := hjob.old_name s (hold ▸ hs)
    exact hne (hm.symm.trans hn)
  · exact fun m job' hj' => ⟨job', (hother m job' hj').2, rfl⟩

theorem Reaping.move {a' : Actor} (h : Reaping a id taken)
    (hm : Move c ⟨.exiting id taken, a⟩ ⟨.exiting id taken, a'⟩) (hr : a'.reloads = a.reloads)
    (hs : ∃ s, a'.sheep[id]? = some s ∧ s.ctl = none) : Reaping a' id taken :=
  ⟨hm.inv h.inv, hs, fun n job hj => h.not_new n job (hr ▸ hj)⟩

/-- **The serial spawn as moves.** -/
theorem Reaping.spawn (h : Reaping a id taken)
    (hunmarked : ∀ s, a.sheep[id]? = some s → s.entry.reload ≠ .replacement) :
    Moves c ⟨.exiting id taken, a⟩ ⟨.exiting id taken, a.reapSpawn c.world id⟩ ∧
      Reaped a (a.reapSpawn c.world id) id taken := by
  unfold reapSpawn
  cases hd : a.serialDrainOf id with
  | none =>
    refine ⟨.refl, ⟨h, fun n job hj hold hphase => ?_, fun n job hj => ⟨job, hj, rfl⟩⟩⟩
    have hfalse := jobWhere_none hd hj
    simp [hold, hphase] at hfalse
  | some n =>
    obtain ⟨job, hj, hp⟩ := jobWhere_some hd
    obtain ⟨hphase, hold⟩ : job.swap.phase = .drainFirst ∧ job.swap.oldId = id := by
      simpa using hp
    obtain ⟨s, hs, hctl⟩ := h.slot
    have hjob := h.inv.jobs n job hj
    have hname : s.name = n := hjob.old_name s (hold ▸ hs)
    simp only [hs, (h.inv.wellFormed hs).idle hctl, Bool.false_eq_true, if_false]
    unfold spawnSerialReplacement
    have hsp := spawnReplacement_replaced (w := c.world) h.inv hs .serial
    generalize a.spawnReplacement c.world id .serial = r at hsp
    cases hsp with
    | refused reason nextId hle =>
      have hbump : Move c ⟨.exiting id taken, a⟩ ⟨.exiting id taken, { a with nextId := nextId }⟩ :=
        .bump nextId hle
      obtain ⟨hmoves, hreaped⟩ := (h.move hbump rfl ⟨s, hs, hctl⟩).dropped (c := c) hj hphase hold
      exact ⟨.head hbump hmoves, ⟨hreaped.toReaping, hreaped.spent, hreaped.queues⟩⟩
    | putBack _ hmode => cases hmode
    | scratched reason _ =>
      have hbump : Move c ⟨.exiting id taken, a⟩
          ⟨.exiting id taken, { a with nextId := a.nextId + 1 }⟩ :=
        .bump _ (Nat.le_succ _)
      have hscratch : Move c ⟨.exiting id taken, { a with nextId := a.nextId + 1 }⟩
          ⟨.exiting id taken, { a with nextId := a.nextId + 1 }.setSlot id
            (s.draining (some a.nextId))⟩ :=
        .scratch hs hctl (hunmarked s hs) h.not_new
      have hb := h.move hbump rfl ⟨s, hs, hctl⟩
      have hr := hb.move hscratch rfl ⟨_, get_setSlot _ _ _, hctl⟩
      obtain ⟨hmoves, hreaped⟩ := hr.dropped (c := c) hj hphase hold
      exact ⟨.head hbump (.head hscratch hmoves),
        ⟨hreaped.toReaping, hreaped.spent, hreaped.queues⟩⟩
    | @spawned s' pid credentials hrep hen hruns hheir =>
      subst hname
      have hspawn : Move c ⟨.exiting id taken, a⟩ ⟨.exiting id taken, _⟩ :=
        .serialSpawn hs rfl hctl hj hphase hold hen hrep hruns hheir
      simp only [hj, putJob, armReloadDeadline, Table.get_insert, if_true, Table.insert_insert]
      have hmoves : Moves c ⟨.exiting id taken, a⟩ ⟨.exiting id taken, _⟩ :=
        .tail (.single hspawn) (.quiet a.dogBinaries (⟨a.nextId, 0, true⟩ :: a.readies) a.verifies)
      have hne : id ≠ a.nextId := (h.inv.lt_nextId hs).ne
      have hread : ∀ (m : String) (job' : ReloadJob), (a.reloads.insert s.name
          (⟨job.queue, job.mode, ⟨job.swap.oldId, some a.nextId, .awaitReady⟩, a.nextDeadline⟩ :
            ReloadJob))[m]? = some job' →
          m = s.name ∧ job' = ⟨job.queue, job.mode, ⟨job.swap.oldId, some a.nextId, .awaitReady⟩,
            a.nextDeadline⟩ ∨ m ≠ s.name ∧ a.reloads[m]? = some job' :=
        fun _ _ hj' => (Table.of_insert hj').imp_left (And.imp_right Eq.symm)
      refine ⟨hmoves, ⟨⟨hmoves.inv h.inv, ⟨s.draining (some a.nextId), ?_, hctl⟩, ?_⟩, ?_, ?_⟩⟩
      · rw [Table.get_insert, if_neg hne, Table.get_insert, if_pos rfl]
      · intro m job' hj' hnew
        rcases hread m job' hj' with ⟨-, rfl⟩ | ⟨-, hj'⟩
        · exact hne (Option.some.inj hnew).symm
        · exact h.not_new m job' hj' hnew
      · intro m job' hj' hold' hphase'
        rcases hread m job' hj' with ⟨-, rfl⟩ | ⟨hm, hj'⟩
        · cases hphase'
        · exact hm ((h.inv.jobs m job' hj').old_name s (hold' ▸ hs)).symm
      · intro m job' hj'
        rcases hread m job' hj' with ⟨rfl, rfl⟩ | ⟨-, hj'⟩
        · exact ⟨job, hj, rfl⟩
        · exact ⟨job', hj', rfl⟩

/-- The job of a reaped drainee: finished, or committed by its death. -/
theorem reapJob_moves (h : Inv .none a) (hgone : a.sheep[id]? = none)
    (hnew : ∀ (n : String) (job : ReloadJob), a.reloads[n]? = some job → job.swap.newId ≠ some id)
    (hspent : ∀ (n : String) (job : ReloadJob), a.reloads[n]? = some job → job.swap.oldId = id →
      job.swap.phase ≠ .drainFirst)
    (hq : ∀ (n : String) (job : ReloadJob), a.reloads[n]? = some job →
      ∀ j ∈ job.queue, c.Queued n j) :
    Moves c ⟨.none, a⟩ ⟨.none, a.reapJob c.world id⟩ := by
  unfold reapJob
  cases hf : a.reloadOf id with
  | none => exact .refl
  | some n =>
    obtain ⟨job, hj, hnames⟩ := jobWhere_some hf
    have hold : job.swap.oldId = id :=
      (ReloadJob.names_iff.1 hnames).resolve_right (hnew n job hj)
    have hjob := h.jobs n job hj
    have hfirst := hspent n job hj hold
    obtain ⟨newId, hnewId⟩ : ∃ newId, job.swap.newId = some newId :=
      Option.ne_none_iff_exists'.1 fun e => hfirst (hjob.phase.1 e)
    have hold' : a.sheep[job.swap.oldId]? = none := hold ▸ hgone
    simp only [hj]
    split
    · exact finishSwap_moves h hj hnewId hold' (hq n job hj)
    · exact finishSwap_moves h hj hnewId hold' (hq n job hj)
    · exact .single (.commit hj hnewId (fun _ _ => Or.inr hold') (Or.inr hold') (by simp [hold']))
    · next hphase => exact absurd hphase hfirst

/-- **`reap_drainee` as moves**, the drainee off the flock part way through. -/
theorem Reaping.reap_through (h : Reaping a id taken)
    (hunmarked : ∀ s, a.sheep[id]? = some s → s.entry.reload ≠ .replacement)
    (hq : ∀ (n : String) (job : ReloadJob), a.reloads[n]? = some job →
      ∀ j ∈ job.queue, c.Queued n j) :
    ∃ d : Actor, Moves c ⟨.exiting id taken, a⟩ ⟨.none, d⟩ ∧ d.sheep[id]? = none ∧
      Moves c ⟨.none, d⟩ ⟨.none, a.reapDrainee c.world id⟩ := by
  rw [reapDrainee_eq]
  obtain ⟨hmoves, hr⟩ := h.spawn (c := c) hunmarked
  obtain ⟨s, hs, hctl⟩ := hr.slot
  have hdereg : Moves c ⟨.exiting id taken, a.reapSpawn c.world id⟩
      ⟨.none, (a.reapSpawn c.world id).deregisterOnExit id⟩ :=
    deregisterOnExit_moves hs hctl hr.not_new
  have hreloads : ((a.reapSpawn c.world id).deregisterOnExit id).reloads =
      (a.reapSpawn c.world id).reloads := (Frame.deregisterOnExit id _).reloads
  have hgone : ((a.reapSpawn c.world id).deregisterOnExit id).sheep[id]? = none := by
    simp only [deregisterOnExit, hs, resolvePending_eq]
    simp [removeSlot]
  have hto : Moves c ⟨.exiting id taken, a⟩ ⟨.none, (a.reapSpawn c.world id).deregisterOnExit id⟩ :=
    hmoves.trans hdereg
  refine ⟨_, hto, hgone, reapJob_moves (hto.inv h.inv) hgone ?_ ?_ ?_⟩
  all_goals rw [hreloads]
  · exact hr.not_new
  · exact hr.spent
  · intro n job hj j hmem
    obtain ⟨job₀, hj₀, he⟩ := hr.queues n job hj
    exact hq n job₀ hj₀ j (he ▸ hmem)

theorem Reaping.reap (h : Reaping a id taken)
    (hunmarked : ∀ s, a.sheep[id]? = some s → s.entry.reload ≠ .replacement)
    (hq : ∀ (n : String) (job : ReloadJob), a.reloads[n]? = some job →
      ∀ j ∈ job.queue, c.Queued n j) :
    Moves c ⟨.exiting id taken, a⟩ ⟨.none, a.reapDrainee c.world id⟩ := by
  obtain ⟨d, hto, -, hon⟩ := h.reap_through hunmarked hq
  exact hto.trans hon

/-- A reaped drainee is off the flock: what comes after it registers other
ids only. -/
theorem Reaping.reap_gone (h : Reaping a id taken)
    (hunmarked : ∀ s, a.sheep[id]? = some s → s.entry.reload ≠ .replacement)
    (hq : ∀ (n : String) (job : ReloadJob), a.reloads[n]? = some job →
      ∀ j ∈ job.queue, c.Queued n j) : (a.reapDrainee c.world id).sheep[id]? = none := by
  obtain ⟨d, hto, hgone, hon⟩ := h.reap_through (c := c) hunmarked hq
  obtain ⟨s, hs, -⟩ := h.slot
  cases ht : (a.reapDrainee c.world id).sheep[id]? with
  | none => rfl
  | some t =>
    have hlt : id < d.nextId := (h.inv.lt_nextId hs).trans_le hto.names.1
    obtain ⟨u, hu, -⟩ := hon.names.2 id t hlt ht
    rw [hgone] at hu
    cases hu

/-- An abort leaves the drainee it names unmarked. -/
theorem abortReload_drainee (h : Inv x a) (hj : a.reloads[n]? = some job)
    (hphase : job.swap.phase = .awaitReady) (hs : a.sheep[job.swap.oldId]? = some s) :
    (a.abortReload n).sheep[job.swap.oldId]? = some s.restore := by
  rw [abortReload_eq hj hphase]
  have hmod : (a.modifySlot job.swap.oldId SheepSlot.restore).dropJob n =
      (a.setSlot job.swap.oldId s.restore).dropJob n := by
    simp [modifySlot, hs]
  have hrestored : ((a.setSlot job.swap.oldId s.restore).dropJob n).sheep[job.swap.oldId]? =
      some s.restore := by
    simp [dropJob, setSlot]
  rw [hmod]
  cases hnew : job.swap.newId with
  | none => exact hrestored
  | some newId =>
    have hne : job.swap.oldId ≠ newId := fun e => (h.jobs n job hj).distinct (e ▸ hnew)
    have hf : Frame newId ((a.setSlot job.swap.oldId s.restore).dropJob n)
        (((a.setSlot job.swap.oldId s.restore).dropJob n).abandon (some newId)) := by
      unfold abandon
      dsimp only
      split
      · exact .refl _ _
      · split
        · exact .setSlot _ _ _
        · exact (Frame.setSlot newId _ _).trans (.claimManual newId _ _ _)
    rw [hf.sheep _ hne, hrestored]

/-- A slot just emptied: `b` is `a` with the exit recorded and nothing
settled yet. -/
structure Emptied (c : Turn) (a b : Actor) (task : Task) (s : SheepSlot) (outcome : ExitOutcome) :
    Prop where
  inv₀ : Inv .none a
  before : c.before = a
  msg : ∃ outcome oomKilled, c.msg = .exited task outcome oomKilled
  slot₀ : a.sheep[task.id]? = some s
  live : s.ctl.isSome = true
  inv : Inv (.exiting task.id s) b
  slot : b.sheep[task.id]? = some (s.exited outcome)
  other : ∀ j, j ≠ task.id → b.sheep[j]? = a.sheep[j]?
  reloads : b.reloads = a.reloads
  timers : b.timers = a.timers

namespace Emptied

variable {b : Actor} {task : Task} {outcome : ExitOutcome}

theorem queued (h : Emptied c a b task s outcome) (n : String) (job : ReloadJob)
    (hj : b.reloads[n]? = some job) : ∀ j ∈ job.queue, c.Queued n j := by
  rw [h.reloads] at hj
  exact fun j hmem => Or.inr ⟨job, h.before ▸ hj, hmem⟩

theorem uncommitted (h : Emptied c a b task s outcome) (hj : b.reloads[n]? = some job)
    (hphase : job.swap.phase = .awaitReady) (id : ℕ) (hnew : job.swap.newId = some id) :
    c.Uncommitted id := by
  rw [h.reloads] at hj
  exact ⟨n, job, h.before ▸ hj, hphase, hnew⟩

theorem since (h : Emptied c a b task s outcome) : b.timers = c.before.timers :=
  h.timers.trans (by rw [h.before])

theorem name (h : Emptied c a b task s outcome) (hj : b.reloads[n]? = some job)
    (hid : job.swap.oldId = task.id ∨ job.swap.newId = some task.id) : s.name = n := by
  rw [h.reloads] at hj
  exact h.inv₀.name_of_named h.slot₀ hj (hid.imp_right Or.inl)

/-- A deletion of the emptied slot under a job that calls it its
replacement is one the turn announces. -/
theorem drops (h : Emptied c a b task s outcome) (hj : b.reloads[n]? = some job)
    (hnew : job.swap.newId = some task.id) (hdel : s.pendingDelete = true)
    (hwhy : s.entry.reload ≠ .replacement ∨
      job.swap.phase ≠ .awaitReady ∧ (b.sheep[job.swap.oldId]?).isSome = true) :
    c.DropsReplacement task.id := by
  obtain ⟨outcome', oomKilled, hmsg⟩ := h.msg
  rw [h.reloads] at hj
  have hne : job.swap.oldId ≠ task.id :=
    fun e => (h.inv₀.jobs n job hj).distinct (e ▸ hnew)
  rw [h.other _ hne] at hwhy
  refine ⟨n, job, s, h.before ▸ hj, hnew, h.before ▸ h.slot₀, Or.inr ⟨⟨task, outcome', oomKilled,
    hmsg, rfl⟩, hdel, ?_⟩⟩
  rw [h.before]
  exact hwhy

/-- The drainee arm. -/
theorem drainee (h : Emptied c a b task s outcome) {q : Option ℕ}
    (hr : s.entry.reload = .drainee q) (oomKilled : Bool) :
    Moves c ⟨.exiting task.id s, b⟩ ⟨.none,
      match b.uncommittedSwapOf task.id with
      | some name =>
        if s.manual.isSome then (b.abortReload name).settleExit c.world task.id s outcome oomKilled
        else b.reapDrainee c.world task.id
      | none => b.reapDrainee c.world task.id⟩ := by
  have hnew : ∀ (n : String) (job : ReloadJob), b.reloads[n]? = some job →
      job.swap.newId ≠ some task.id := by
    intro n job hj he
    rw [h.reloads] at hj
    exact (h.inv₀.jobs n job hj).new_mark task.id s q he h.slot₀ hr
  have hreap : Moves c ⟨.exiting task.id s, b⟩ ⟨.none, b.reapDrainee c.world task.id⟩ := by
    refine Reaping.reap ⟨h.inv, ⟨_, h.slot, rfl⟩, hnew⟩ ?_ h.queued
    intro t ht
    rw [h.slot] at ht
    rw [← Option.some.inj ht]
    simp [SheepSlot.exited, hr]
  split
  · next n hn =>
    split
    · obtain ⟨job, hj, hp⟩ := jobWhere_some hn
      obtain ⟨hphase, hnames⟩ : job.swap.phase = .awaitReady ∧ job.names task.id = true := by
        simpa using hp
      have hold : job.swap.oldId = task.id :=
        (ReloadJob.names_iff.1 hnames).resolve_right (hnew n job hj)
      have habort : Moves c ⟨.exiting task.id s, b⟩ ⟨.exiting task.id s, b.abortReload n⟩ :=
        abortReload_moves h.inv hj hphase (h.uncommitted hj hphase)
      have hslot := abortReload_drainee h.inv hj hphase (hold ▸ h.slot)
      rw [hold] at hslot
      refine habort.trans (settleExit_moves ⟨habort.inv h.inv, hslot, rfl, ?_,
        h.inv₀.wellFormed h.slot₀, h.live, ?_, ?_, by simp [hr],
        (abortReload_timers n b).trans h.since⟩ outcome oomKilled)
      · simp [SheepSlot.restore, SheepSlot.exited, SheepSlot.setReload]
      · rintro - ⟨m, job', hj', he⟩
        rw [abortReload_reloads, Table.get_erase] at hj'
        split at hj'
        · cases hj'
        · exact absurd he (hnew m job' hj')
      · intro m job' _ hj' hold'
        rw [abortReload_reloads, Table.get_erase] at hj'
        split at hj'
        · cases hj'
        · next hne => exact absurd ((h.name hj' (Or.inl hold')).symm.trans
            (h.name hj (Or.inl hold))) hne
    · exact hreap
  · exact hreap

theorem plain (h : Emptied c a b task s outcome) (hr : s.entry.reload = .none)
    (oomKilled : Bool) :
    Moves c ⟨.exiting task.id s, b⟩
      ⟨.none, b.settleExit c.world task.id s outcome oomKilled⟩ := by
  refine settleExit_moves ⟨h.inv, h.slot, rfl, ?_, h.inv₀.wellFormed h.slot₀, h.live, ?_,
    by simp [hr], by simp [hr], h.since⟩ outcome oomKilled
  · simp [SheepSlot.exited, hr]
  · rintro hdel ⟨n, job, hj, hnew⟩
    exact h.drops hj hnew hdel (Or.inl (by simp [hr]))

theorem cleared (h : Emptied c a b task s outcome) :
    b.clearReload task.id = b.setSlot task.id ((s.exited outcome).setReload .none) := by
  simp [clearReload, modifySlot, h.slot]

/-- A job still naming a replacement that has exited calls it its
replacement: the slot was marked when the turn began. -/
theorem newId_of_names (h : Emptied c a b task s outcome) (hr : s.entry.reload = .replacement)
    (hj : b.reloads[n]? = some job) (hnames : job.names task.id = true) :
    n = s.name ∧ job.swap.newId = some task.id := by
  obtain rfl := h.name hj (ReloadJob.names_iff.1 hnames)
  rw [h.reloads] at hj
  exact ⟨rfl, h.inv₀.newId_of_marked h.slot₀ hr (by simp) hj⟩

theorem unmark (h : Emptied c a b task s outcome) (hr : s.entry.reload = .replacement) :
    Move c ⟨.exiting task.id s, b⟩ ⟨.exiting task.id s, b.clearReload task.id⟩ := by
  rw [h.cleared]
  refine .unmark h.slot (fun n job hj hold => ?_) (by simp [SheepSlot.exited, hr])
    fun _ _ _ _ _ _ => Or.inr rfl
  have hnames : job.names task.id = true := ReloadJob.names_iff.2 (Or.inl hold)
  obtain ⟨rfl, hnew⟩ := h.newId_of_names hr hj hnames
  exact (h.inv.jobs _ job hj).distinct (hold ▸ hnew)

/-- A replacement that dies before the commit takes its swap with it. -/
theorem replacementAborted (h : Emptied c a b task s outcome) (hr : s.entry.reload = .replacement)
    (hj : b.reloads[n]? = some job) (hphase : job.swap.phase = .awaitReady)
    (hnames : job.names task.id = true) :
    Moves c ⟨.exiting task.id s, b.clearReload task.id⟩
      ⟨.none, ((b.clearReload task.id).abortReload n).deregisterOnExit task.id⟩ := by
  obtain ⟨rfl, hnew⟩ := h.newId_of_names hr hj hnames
  have hunmark : Move c ⟨.exiting task.id s, b⟩ ⟨.exiting task.id s, b.clearReload task.id⟩ :=
    h.unmark hr
  have hj' : (b.clearReload task.id).reloads[s.name]? = some job := by
    rw [clearReload_reloads, hj]
  have hne : task.id ≠ job.swap.oldId := fun e => (h.inv.jobs s.name job hj).distinct (e ▸ hnew)
  have hinv := hunmark.inv h.inv
  have habort : Moves c ⟨.exiting task.id s, b.clearReload task.id⟩
      ⟨.exiting task.id s, (b.clearReload task.id).abortReload s.name⟩ :=
    abortReload_moves hinv hj' hphase (h.uncommitted hj hphase)
  -- the replacement has no process, so the abort only takes its marker off
  have hslot : ∃ t, ((b.clearReload task.id).abortReload s.name).sheep[task.id]? = some t ∧
      t.ctl = none := by
    rw [abortReload_eq hj' hphase, hnew]
    have hget : (((b.clearReload task.id).modifySlot job.swap.oldId SheepSlot.restore).dropJob
        s.name).sheep[task.id]? = some ((s.exited outcome).setReload .none) := by
      have hf := (Frame.modifySlot job.swap.oldId SheepSlot.restore
        (b.clearReload task.id)).sheep task.id hne
      rw [h.cleared] at hf ⊢
      exact hf.trans (get_setSlot _ _ _)
    unfold abandon
    simp only [hget]
    exact ⟨_, get_setSlot _ _ _, rfl⟩
  obtain ⟨t, ht, hctl⟩ := hslot
  refine habort.trans (deregisterOnExit_moves ht hctl ?_)
  intro m job' hm hnew'
  rw [abortReload_reloads, Table.get_erase, clearReload_reloads] at hm
  split at hm
  · cases hm
  · next hne' => exact hne' (h.name hm (Or.inr hnew')).symm

/-- A committed swap's replacement dies: its swap ends with it when the
drainee is gone, and goes on when it is not. -/
theorem replacementCommitted (h : Emptied c a b task s outcome)
    (hr : s.entry.reload = .replacement)
    (hno : (b.clearReload task.id).uncommittedSwapOf task.id = none) (oomKilled : Bool) :
    Moves c ⟨.exiting task.id s, b.clearReload task.id⟩
      ⟨.none, ((b.clearReload task.id).endOrphanedSwap task.id).settleExit c.world task.id s outcome
        oomKilled⟩ := by
  have hunmark : Move c ⟨.exiting task.id s, b⟩ ⟨.exiting task.id s, b.clearReload task.id⟩ :=
    h.unmark hr
  have hinv := hunmark.inv h.inv
  have hslot : (b.clearReload task.id).sheep[task.id]? =
      some ((s.exited outcome).setReload .none) := by
    rw [h.cleared]
    exact get_setSlot _ _ _
  have hwf := h.inv₀.wellFormed h.slot₀
  have htimers : (b.clearReload task.id).timers = b.timers := by rw [h.cleared]; rfl
  have hphase : ∀ (n : String) (job : ReloadJob), b.reloads[n]? = some job →
      job.names task.id = true → job.swap.phase ≠ .awaitReady := by
    intro n job hj hnames he
    rw [← clearReload_reloads task.id b] at hj
    have hfalse := jobWhere_none hno hj
    simp [he, hnames] at hfalse
  have hcommitted : ¬ c.Uncommitted task.id := by
    rintro ⟨n, job, hj, he, hnew⟩
    rw [h.before, ← h.reloads] at hj
    exact hphase n job hj (ReloadJob.names_iff.2 (Or.inr hnew)) he
  have hreleased : ∀ (n : String) (job : ReloadJob), (b.clearReload task.id).reloads[n]? = some job →
      job.swap.phase = .awaitReady → job.swap.newId ≠ some task.id := by
    intro n job hj he hnew
    rw [clearReload_reloads] at hj
    exact hphase n job hj (ReloadJob.names_iff.2 (Or.inr hnew)) he
  unfold endOrphanedSwap
  cases hf : (b.clearReload task.id).reloadOf task.id with
  | none =>
    refine settleExit_moves ⟨hinv, hslot, rfl, by simp [SheepSlot.setReload], hwf, h.live, ?_,
      by simp [hr], fun _ => ⟨hcommitted, hreleased⟩, htimers.trans h.since⟩ outcome oomKilled
    rintro - ⟨n, job, hj, hnew⟩
    have hfalse := jobWhere_none hf hj
    simp [ReloadJob.names, hnew] at hfalse
  | some n =>
    obtain ⟨job, hj, hnames⟩ := jobWhere_some hf
    have hjb : b.reloads[n]? = some job := by rwa [clearReload_reloads] at hj
    obtain ⟨rfl, hnew⟩ := h.newId_of_names hr hjb hnames
    simp only [hj]
    have hne : job.swap.oldId ≠ task.id := fun e => (h.inv.jobs s.name job hjb).distinct (e ▸ hnew)
    have hold : (b.clearReload task.id).sheep[job.swap.oldId]? = b.sheep[job.swap.oldId]? :=
      (Frame.modifySlot task.id _ b).sheep _ hne
    split
    · next hreg =>
      refine settleExit_moves ⟨hinv, hslot, rfl, by simp [SheepSlot.setReload], hwf, h.live, ?_,
        by simp [hr], fun _ => ⟨hcommitted, hreleased⟩, htimers.trans h.since⟩ outcome oomKilled
      rintro hdel ⟨m, job', hj', hnew'⟩
      rw [clearReload_reloads] at hj'
      obtain rfl := h.name hj' (Or.inr hnew')
      obtain rfl := Option.some.inj (hj'.symm.trans hjb)
      exact h.drops hj' hnew hdel (Or.inr ⟨hphase _ _ hjb hnames, hold ▸ hreg⟩)
    · next hgone =>
      have hgone : a.sheep[job.swap.oldId]? = none := by
        rw [hold, h.other _ hne] at hgone
        simpa using hgone
      -- the assertion fails only on a replacement that was serving
      have hassert : Moves c ⟨.exiting task.id s, b.clearReload task.id⟩ ⟨.exiting task.id s,
          (b.clearReload task.id).debugAssert (!(b.clearReload task.id).isServing task.id)
            "a swap committed by the drainee's death cannot have had a live replacement"⟩ := by
        unfold debugAssert
        split
        · exact .refl
        · next hserving =>
          obtain ⟨t, ht, hon⟩ := isServing_iff.1 (by simpa using hserving)
          rw [hslot] at ht
          obtain ⟨outcome', oomKilled', hmsg⟩ := h.msg
          refine .single (.assertFail _ ⟨task, outcome', oomKilled', s, job, hmsg,
            h.before ▸ h.slot₀, hr, ?_, ?_, hnew, hphase _ _ hjb hnames, h.before ▸ hgone⟩)
          · rw [← Option.some.inj ht] at hon
            exact hon
          · rw [h.before, ← h.reloads]
            exact hjb
      have hreloads : ((b.clearReload task.id).debugAssert
          (!(b.clearReload task.id).isServing task.id)
          "a swap committed by the drainee's death cannot have had a live replacement").reloads =
          b.reloads := by
        unfold debugAssert
        split <;> exact clearReload_reloads _ _
      have hsheep : ((b.clearReload task.id).debugAssert
          (!(b.clearReload task.id).isServing task.id)
          "a swap committed by the drainee's death cannot have had a live replacement").sheep =
          (b.clearReload task.id).sheep := by
        unfold debugAssert
        split <;> rfl
      have hkept : ((b.clearReload task.id).debugAssert
          (!(b.clearReload task.id).isServing task.id)
          "a swap committed by the drainee's death cannot have had a live replacement").timers =
          (b.clearReload task.id).timers := by
        unfold debugAssert
        split <;> rfl
      generalize (b.clearReload task.id).debugAssert _ _ = d at hassert hreloads hsheep hkept ⊢
      have hdrop : Move c ⟨.exiting task.id s, d⟩ ⟨.exiting task.id s, d.dropJob s.name⟩ := by
        refine .drop _ (fun job' newId t hj' hnew' ht => ?_) fun job' hj' => ?_
        · rw [hreloads, hjb] at hj'
          obtain rfl := Option.some.inj hj'
          obtain rfl := Option.some.inj (hnew.symm.trans hnew')
          rw [hsheep, hslot] at ht
          simp [← Option.some.inj ht, SheepSlot.setReload]
        · rw [hreloads, hjb] at hj'
          obtain rfl := Option.some.inj hj'
          rw [hsheep, hold, h.other _ hne]
          exact Or.inr (Or.inr (Or.inl hgone))
      have harm : Moves c ⟨.exiting task.id s, b.clearReload task.id⟩
          ⟨.exiting task.id s, d.dropJob s.name⟩ :=
        hassert.tail hdrop
      have hslot' : (d.dropJob s.name).sheep[task.id]? =
          some ((s.exited outcome).setReload .none) :=
        (congrArg (fun m => m[task.id]?) hsheep).trans hslot
      refine harm.trans (settleExit_moves ⟨harm.inv hinv, hslot', rfl, ?_, hwf, h.live, ?_,
        by simp [hr], fun _ => ⟨hcommitted, fun m job' hj' he => ?_⟩,
        hkept.trans (htimers.trans h.since)⟩ outcome oomKilled)
      · simp [SheepSlot.setReload]
      · rintro - ⟨m, job', hj', hnew'⟩
        simp only [dropJob, Table.get_erase, hreloads] at hj'
        split at hj'
        · cases hj'
        · next hm => exact absurd (h.name hj' (Or.inr hnew')).symm hm
      · simp only [dropJob, Table.get_erase, hreloads] at hj'
        split at hj'
        · cases hj'
        · exact hreleased m job' ((clearReload_reloads _ b).symm ▸ hj') he

end Emptied

/-- The state an exit is settled from: the report taken, the slot emptied. -/
def emptied (a : Actor) (task : Task) (s : SheepSlot) (outcome : ExitOutcome) : Actor :=
  { a with
    tasks := a.tasks.erase task
    trace := .exited task.serial :: a.trace
    sheep := a.sheep.insert task.id (s.exited outcome) }

theorem emptied_move (hbefore : c.before = a) {task : Task} (htask : task ∈ a.tasks)
    (hs : a.sheep[task.id]? = some s) (hctl : s.ctl = some task.serial) {outcome : ExitOutcome}
    {oomKilled : Bool} (hmsg : c.msg = .exited task outcome oomKilled) :
    Move c ⟨.none, a⟩ ⟨.exiting task.id s, a.emptied task s outcome⟩ :=
  .exit task outcome hbefore ⟨outcome, oomKilled, hmsg⟩ htask hs hctl

theorem emptied_ok (h : Inv .none a) (hbefore : c.before = a) {task : Task} (htask : task ∈ a.tasks)
    (hs : a.sheep[task.id]? = some s) (hctl : s.ctl = some task.serial) {outcome : ExitOutcome}
    {oomKilled : Bool} (hmsg : c.msg = .exited task outcome oomKilled) :
    Emptied c a (a.emptied task s outcome) task s outcome where
  inv₀ := h
  before := hbefore
  msg := ⟨outcome, oomKilled, hmsg⟩
  slot₀ := hs
  live := by simp [hctl]
  inv := (emptied_move hbefore htask hs hctl hmsg).inv h
  slot := by simp [emptied]
  other := fun j hj => by simp [emptied, hj]
  reloads := rfl
  timers := rfl

/-- **`handle_exited` as moves**, from the move that empties the slot. -/
theorem handleExited_moves (h : Inv .none a) (hbefore : c.before = a) {task : Task}
    (htask : task ∈ a.tasks) (outcome : ExitOutcome) (oomKilled : Bool)
    (hmsg : c.msg = .exited task outcome oomKilled) :
    Moves c ⟨.none, a⟩ ⟨.none, { a with
      tasks := a.tasks.erase task
      trace := .exited task.serial :: a.trace }.handleExited c.world task.id outcome oomKilled⟩ := by
  obtain ⟨s, hs, hctl, -⟩ := h.tasks.owned task htask
  have hem := emptied_ok h hbefore htask hs hctl hmsg
  refine .head (emptied_move hbefore htask hs hctl hmsg) ?_
  unfold handleExited
  simp only [hs, setSlot]
  cases hr : s.entry.reload with
  | none => exact hem.plain hr oomKilled
  | drainee q => exact hem.drainee hr oomKilled
  | replacement =>
    refine .head (hem.unmark hr) ?_
    dsimp only
    split
    · next n hn =>
      obtain ⟨job, hj, hp⟩ := jobWhere_some hn
      obtain ⟨hphase, hnames⟩ : job.swap.phase = .awaitReady ∧ job.names task.id = true := by
        simpa using hp
      rw [clearReload_reloads] at hj
      exact hem.replacementAborted hr hj hphase hnames
    · next hno => exact hem.replacementCommitted hr hno oomKilled

/-! ## Timers, waits and reports -/

/-- `handle_restart_due` as moves: the timer is spent whatever it finds. -/
theorem handleRestartDue_moves (h : Inv .none a) (hbefore : c.before = a) {t : RestartTimer}
    (ht : t ∈ a.timers) (hmsg : c.msg = .restartDue t) :
    Moves c ⟨.none, a⟩
      ⟨.none, { a with timers := a.timers.erase t }.handleRestartDue c.world t.id t.epoch⟩ := by
  unfold handleRestartDue
  split
  · exact .single (.expire t)
  · next hdown =>
    have hup : a.shuttingDown = false := by simpa using hdown
    split
    · exact .single (.expire t)
    · next s hs =>
      split
      · next hcond =>
        have hctl : s.ctl = none := by
          cases hc : s.ctl with
          | none => rfl
          | some k =>
            have hst := (h.wellFormed hs).status (by simp [hc])
            simp [hcond.1] at hst
        have hfire : Move c ⟨.none, a⟩ ⟨.due t.id, { a with timers := a.timers.erase t }⟩ :=
          .fire t hbefore hmsg ht hs hcond.1 hcond.2 hctl
        refine .head hfire (.tail (respawn_moves (hfire.inv h) hs hctl hup
          (fun _ => ⟨rfl, hcond.1⟩) false fun _ _ _ _ _ => Or.inr (Or.inl ⟨rfl, t, hmsg, ?_⟩))
          .honour)
        rw [hbefore]
      · exact .single (.expire t)

/-- `handle_ready_result` as moves. -/
theorem handleReadyResult_moves (h : Inv .none a) (hbefore : c.before.reloads = a.reloads)
    {wait : ReadyWait} {readiness : Readiness} (hmsg : c.msg = .readyResult wait readiness)
    (hheard : readiness = .ready → .ready wait.id ∈ a.trace) :
    Moves c ⟨.none, a⟩ ⟨.none, a.handleReadyResult c.world wait.id wait.epoch readiness⟩ := by
  unfold handleReadyResult
  split
  · exact .refl
  · next hdown =>
    have hup : a.shuttingDown = false := by simpa using hdown
    split
    · exact .refl
    · next s hs =>
      split
      · exact .refl
      · next hcond =>
        have hst : s.entry.status = .starting := by
          by_contra hne
          exact hcond (Or.inr hne)
        split
        · next hr =>
          refine reloadReadyResult_moves h hs hr hst hup hbefore readiness ?_ ?_
          · rintro rfl
            exact ⟨⟨wait, hmsg, rfl⟩, hheard rfl⟩
          · exact fun n job hj j hmem => Or.inr ⟨job, hbefore ▸ hj, hmem⟩
        · next hr =>
          have honline : Move c ⟨.none, a⟩ ⟨.none, _⟩ :=
            .online hs hst hup fun hr' => absurd hr' hr
          simpa [Actor.setStatus, hs, wentOnline, modifySlot, setSlot] using
            Relation.ReflTransGen.single honline

theorem mem_matchingIds_id {j : ℕ} (hj : j ∈ a.matchingIds (.id id)) : j = id := by
  obtain ⟨s, -, hp⟩ := mem_reachedIds.1 hj
  have he : id = j := by simpa [ProcessSelector.isExact, ProcessSelector.hits] using hp
  exact he.symm

/-- `handle_extra_restart` as moves: it reaches a running sheep only. -/
theorem handleExtraRestart_moves (h : Inv .none a) (hord : c.Orders) (id pid : ℕ)
    (epoch observed : Option ℕ) :
    Moves c ⟨.none, a⟩ ⟨.none, a.handleExtraRestart c.world id pid epoch observed⟩ := by
  unfold handleExtraRestart
  split
  · exact .refl
  · split
    · exact .refl
    · next s hs =>
      split
      · exact .refl
      · split
        · exact .refl
        · next hpid =>
          have hpid : s.entry.pid = some pid := by
            by_contra hne
            exact hpid hne
          have hlive : s.ctl.isSome = true := by
            rw [← (h.wellFormed hs).pid, hpid]
            rfl
          split
          · exact .refl
          · split
            · exact .refl
            · split
              · exact .refl
              · refine beginManual_moves h (fun j hj => ⟨Or.inl hord, fun _ => rfl,
                  fun _ t ht hctl => ?_, by simp⟩) (by simp)
                obtain rfl := mem_matchingIds_id hj
                rw [hs] at ht
                rw [← Option.some.inj ht] at hctl
                simp [hctl] at hlive

end Actor

end Supervisor

end Shep
