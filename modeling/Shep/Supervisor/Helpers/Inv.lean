import Shep.Common.Table
import Shep.Supervisor.Helpers.Moves

/-!
# Supervisor — the invariant of every reachable state

`Inv` holds in every state a run can reach and at every point inside a
turn, whatever the messages: ids below the counter, tasks and slots in
step, every job naming instances of its own app under a watchdog still to
fire, every replacement named by its job, every parked reply waiting on
running sheep. It is split by subject, each part over the components it
reads, so that a move that leaves them alone preserves it by itself.
-/

namespace Shep

namespace Supervisor

/-! ## The parts -/

/-- What one slot says about itself. A slot with no process may hold any
status here: `Settled`, in the lifecycle results, is the stronger form. -/
structure SheepSlot.WellFormed (s : SheepSlot) : Prop where
  pid : s.entry.pid.isSome = s.ctl.isSome
  startedAt : s.entry.startedAt.isSome = s.ctl.isSome
  status : s.ctl.isSome = true →
    s.entry.status = .starting ∨ s.entry.status = .online ∨ s.entry.status = .stopping
  doomed : s.pendingDelete = true → s.manual.isSome = true ∧ s.ctl.isSome = true
  deleting : ∀ o, s.manual = some ⟨.delete, o⟩ → s.pendingDelete = true
  automatic : ∀ k, s.manual = some ⟨k, .automatic⟩ → k = .restart
  parked : ∀ p, s.entry.pending = some p → p.name = s.name
  unparked : s.entry.pending = none → s.entry.pendingReidentifies = false

/-- Ids are below the counter and slots well formed. -/
def FlockOk (sheep : Std.ExtTreeMap ℕ SheepSlot) (nextId : ℕ) : Prop :=
  ∀ (id : ℕ) (s : SheepSlot), sheep[id]? = some s → id < nextId ∧ s.WellFormed

/-- The tasks in flight are the running slots', one each. -/
structure TasksOk (sheep : Std.ExtTreeMap ℕ SheepSlot) (tasks : List Task) (nextTask : ℕ) :
    Prop where
  owned : ∀ t ∈ tasks, ∃ s : SheepSlot, sheep[t.id]? = some s ∧ s.ctl = some t.serial ∧
    s.name = t.name ∧ s.entry.pid = some t.pid
  running : ∀ (id : ℕ) (s : SheepSlot) (k : ℕ), sheep[id]? = some s → s.ctl = some k → ∃ t ∈ tasks, t.serial = k ∧ t.id = id
  lt : ∀ t ∈ tasks, t.serial < nextTask
  nodup : (tasks.map Task.serial).Nodup

/-- A job names instances of its own app, and the watchdog that bounds it
is still to fire. -/
structure JobOk (sheep : Std.ExtTreeMap ℕ SheepSlot) (watchdogs : List Watchdog)
    (nextId : ℕ) (n : String) (job : ReloadJob) : Prop where
  old_lt : job.swap.oldId < nextId
  new_lt : ∀ id, job.swap.newId = some id → id < nextId
  queue_lt : ∀ id ∈ job.queue, id < nextId
  distinct : job.swap.newId ≠ some job.swap.oldId
  queued : (job.swap.oldId :: job.queue).Nodup
  new_queued : ∀ id ∈ job.queue, job.swap.newId ≠ some id
  old_name : ∀ s, sheep[job.swap.oldId]? = some s → s.name = n
  new_name : ∀ id s, job.swap.newId = some id → sheep[id]? = some s → s.name = n
  queue_name : ∀ id ∈ job.queue, ∀ s, sheep[id]? = some s → s.name = n
  new_mark : ∀ id s k, job.swap.newId = some id → sheep[id]? = some s →
    s.entry.reload ≠ .drainee k
  phase : job.swap.newId = none ↔ job.swap.phase = .drainFirst
  serial : job.swap.phase = .drainFirst → job.mode = .serial
  watched : ⟨n, job.deadline⟩ ∈ watchdogs

/-- Every job in flight is one `JobOk` describes. -/
def JobsOk (sheep : Std.ExtTreeMap ℕ SheepSlot) (reloads : Std.ExtTreeMap String ReloadJob)
    (watchdogs : List Watchdog) (nextId : ℕ) : Prop :=
  ∀ (n : String) (job : ReloadJob), reloads[n]? = some job → JobOk sheep watchdogs nextId n job

/-- A replacement is running and named by its app's job until a shutdown
drops every job; one still starting beside its drainee is uncommitted. -/
structure MarksOk (x : Hole) (sheep : Std.ExtTreeMap ℕ SheepSlot)
    (reloads : Std.ExtTreeMap String ReloadJob) (down : Bool) : Prop where
  dropped : down = true → ∀ n : String, reloads[n]? = none
  marked : ∀ (id : ℕ) (s : SheepSlot), sheep[id]? = some s → s.entry.reload = .replacement →
    (∀ taken, x ≠ .exiting id taken) → s.ctl.isSome = true ∧
      (down = false → ∃ job : ReloadJob, reloads[s.name]? = some job ∧ job.swap.newId = some id ∧
        (s.entry.status = .starting → (sheep[job.swap.oldId]?).isSome = true →
          job.swap.phase = .awaitReady))

/-- Parked replies wait on running sheep, or on the one whose exit is
being handled. -/
structure RepliesOk (x : Hole) (sheep : Std.ExtTreeMap ℕ SheepSlot) (pending : List PendingReply)
    (nextReply : ℕ) : Prop where
  waiting : ∀ p ∈ pending, p.remaining ≠ [] ∧ ∀ id ∈ p.remaining,
    (∃ s : SheepSlot, sheep[id]? = some s ∧ s.ctl.isSome = true) ∨ ∃ taken, x = .exiting id taken
  lt : ∀ p ∈ pending, p.tag < nextReply
  nodup : (pending.map PendingReply.tag).Nodup

/-- Timers are for ids handed out, each under its own serial. -/
structure TimersOk (timers : List RestartTimer) (nextId nextTimer : ℕ) : Prop where
  id_lt : ∀ t ∈ timers, t.id < nextId
  lt : ∀ t ∈ timers, t.serial < nextTimer
  nodup : (timers.map RestartTimer.serial).Nodup

/-- Watchdogs carry stamps handed out, one each. -/
structure WatchdogsOk (watchdogs : List Watchdog) (nextDeadline : ℕ) : Prop where
  lt : ∀ w ∈ watchdogs, w.stamp < nextDeadline
  nodup : watchdogs.Nodup

/-- **The invariant of every reachable state.** -/
structure Inv (x : Hole) (a : Actor) : Prop where
  flock : FlockOk a.sheep a.nextId
  tasks : TasksOk a.sheep a.tasks a.nextTask
  jobs : JobsOk a.sheep a.reloads a.watchdogs a.nextId
  marks : MarksOk x a.sheep a.reloads a.shuttingDown
  replies : RepliesOk x a.sheep a.pending a.nextReply
  timers : TimersOk a.timers a.nextId a.nextTimer
  watchdogs : WatchdogsOk a.watchdogs a.nextDeadline

/-! ## Slots -/

namespace SheepSlot

variable {s s' : SheepSlot} {status : ProcStatus} {task : ℕ} {ctl : Option ℕ}

theorem WellFormed.idle (h : s.WellFormed) (hctl : s.ctl = none) : s.pendingDelete = false := by
  cases hd : s.pendingDelete with
  | false => rfl
  | true =>
    have hlive := (h.doomed hd).2
    simp [hctl] at hlive

theorem WellFormed.idle_pid (h : s.WellFormed) (hctl : s.ctl = none) : s.entry.pid = none := by
  simpa [hctl] using h.pid

theorem WellFormed.idle_startedAt (h : s.WellFormed) (hctl : s.ctl = none) :
    s.entry.startedAt = none := by
  simpa [hctl] using h.startedAt

theorem WellFormed.intendedSpec_name (h : s.WellFormed) : s.intendedSpec.name = s.name := by
  unfold SheepSlot.intendedSpec
  cases hp : s.entry.pending with
  | none => rfl
  | some p => exact h.parked p hp

theorem Agrees.wellFormed (h : s.Agrees s') (hs : s.WellFormed) : s'.WellFormed where
  pid := by rw [h.pid, h.ctl, hs.pid]
  startedAt := by rw [h.startedAt, h.ctl, hs.startedAt]
  status := by rw [h.ctl, h.status]; exact hs.status
  doomed := by rw [h.pendingDelete, h.manual, h.ctl]; exact hs.doomed
  deleting := by rw [h.pendingDelete, h.manual]; exact hs.deleting
  automatic := by rw [h.manual]; exact hs.automatic
  parked := h.parked
  unparked := h.unparked

theorem RestsAs.wellFormed (h : s.RestsAs status s') (hs : s.WellFormed) (hctl : s.ctl = none) :
    s'.WellFormed where
  pid := by simp [h.pid, h.ctl]
  startedAt := by simp [h.startedAt, h.ctl]
  status := by simp [h.ctl]
  doomed := by simp [h.pendingDelete, hs.idle hctl]
  deleting := by rw [h.pendingDelete, h.manual]; exact hs.deleting
  automatic := by rw [h.manual]; exact hs.automatic
  parked := h.parked
  unparked := h.unparked

theorem Fresh.wellFormed (h : s.Fresh ctl)
    (hst : ctl.isSome = true → s.entry.status = .starting ∨ s.entry.status = .online) :
    s.WellFormed where
  pid := by rw [h.pid, h.ctl_eq]
  startedAt := by rw [h.startedAt, h.ctl_eq]
  status := by
    intro hctl
    rw [h.ctl_eq] at hctl
    rcases hst hctl with h | h <;> simp [h]
  doomed := by simp [h.pendingDelete]
  deleting := by simp [h.manual]
  automatic := by simp [h.manual]
  parked := by simp [h.parked]
  unparked := fun _ => h.unparked

theorem RelaunchesAs.wellFormed (h : s.RelaunchesAs task s') (hs : s.WellFormed)
    (hctl : s.ctl = none) : s'.WellFormed where
  pid := by rw [h.pid, h.ctl]; rfl
  startedAt := by rw [h.startedAt, h.ctl]; rfl
  status := by intro _; rcases h.status with h | h <;> simp [h]
  doomed := by simp [h.pendingDelete, hs.idle hctl]
  deleting := by rw [h.pendingDelete, h.manual]; exact hs.deleting
  automatic := by rw [h.manual]; exact hs.automatic
  parked := h.parked
  unparked := h.unparked

theorem ReplacesAs.wellFormed (h : s.ReplacesAs task s') : s'.WellFormed where
  pid := by rw [h.pid, h.ctl]; rfl
  startedAt := by rw [h.startedAt, h.ctl]; rfl
  status := by simp [h.status]
  doomed := by simp [h.pendingDelete]
  deleting := by simp [h.manual]
  automatic := by simp [h.manual]
  parked := by simp [h.parked]
  unparked := fun _ => h.unparked

theorem WellFormed.exited (hs : s.WellFormed) (outcome : ExitOutcome) :
    (s.exited outcome).WellFormed where
  pid := rfl
  startedAt := rfl
  status := by simp [SheepSlot.exited]
  doomed := by simp [SheepSlot.exited]
  deleting := by simp [SheepSlot.exited]
  automatic := by simp [SheepSlot.exited]
  parked := hs.parked
  unparked := hs.unparked

theorem WellFormed.setStatus (hs : s.WellFormed)
    (hst : status = .starting ∨ status = .online ∨ status = .stopping) :
    (s.setStatus status).WellFormed :=
  { hs with status := fun _ => hst }

theorem WellFormed.setReload (hs : s.WellFormed) (reload : ReloadState) :
    (s.setReload reload).WellFormed :=
  { hs with }

theorem WellFormed.setReadyFailed (hs : s.WellFormed) (readyFailed : Bool) :
    ({ s with readyFailed := readyFailed } : SheepSlot).WellFormed :=
  { hs with }

theorem WellFormed.doom (hs : s.WellFormed) (hctl : s.ctl.isSome = true)
    (hman : s.manual.isSome = true) : ({ s with pendingDelete := true } : SheepSlot).WellFormed :=
  { hs with doomed := fun _ => ⟨hman, hctl⟩, deleting := fun _ _ => rfl }

theorem WellFormed.draining (hs : s.WellFormed) (newId : Option ℕ) :
    (s.draining newId).WellFormed :=
  (hs.setStatus (by simp)).setReload _

theorem restoredStatus_running (s : SheepSlot) :
    restoredStatus s = .starting ∨ restoredStatus s = .online ∨ restoredStatus s = .stopping := by
  unfold restoredStatus
  split <;> simp

theorem WellFormed.restore (hs : s.WellFormed) : s.restore.WellFormed := by
  simp only [SheepSlot.restore]
  split
  · exact (hs.setReload _).setStatus (restoredStatus_running _)
  · exact hs.setReload _

/-- A marker is well formed beside a running process, or while it deletes
nothing. -/
theorem WellFormed.claimed (hs : s.WellFormed) {m : PendingManual}
    (hctl : m.kind = .delete → s.ctl.isSome = true)
    (hauto : m.origin = .automatic → m.kind = .restart) :
    ({ s with manual := some m, pendingDelete := s.pendingDelete || m.kind == .delete } :
      SheepSlot).WellFormed where
  pid := hs.pid
  startedAt := hs.startedAt
  status := hs.status
  doomed := by
    intro hd
    refine ⟨rfl, ?_⟩
    rcases Bool.or_eq_true_iff.1 hd with hd | hd
    · exact (hs.doomed hd).2
    · exact hctl (by simpa using hd)
  deleting := by
    intro o ho
    simp only [Option.some.injEq] at ho
    simp [ho]
  automatic := by
    intro k hk
    simp only [Option.some.injEq] at hk
    simpa [hk] using hauto (by rw [hk])
  parked := hs.parked
  unparked := hs.unparked

theorem WellFormed.remarked (hs : s.WellFormed) {kind : ManualKind} (hk : kind ≠ .delete) :
    ({ s with manual := some ⟨kind, .operator⟩ } : SheepSlot).WellFormed where
  pid := hs.pid
  startedAt := hs.startedAt
  status := hs.status
  doomed := fun hd => ⟨rfl, (hs.doomed hd).2⟩
  deleting := by
    intro o ho
    simp only [Option.some.injEq, PendingManual.mk.injEq] at ho
    exact absurd ho.1 hk
  automatic := by simp
  parked := hs.parked
  unparked := hs.unparked

end SheepSlot

/-! ## The parts under a write of the flock -/

section Parts

variable {x : Hole} {sheep : Std.ExtTreeMap ℕ SheepSlot} {reloads : Std.ExtTreeMap String ReloadJob}
variable {tasks : List Task} {watchdogs : List Watchdog} {pending : List PendingReply}
variable {s s' : SheepSlot} {job : ReloadJob} {id n n' k : ℕ} {name : String} {down : Bool}
variable {f : SheepSlot → SheepSlot}

namespace FlockOk

theorem mono (h : FlockOk sheep n) (hn : n ≤ n') : FlockOk sheep n' :=
  fun id s hs => ⟨(h id s hs).1.trans_le hn, (h id s hs).2⟩

theorem insert (h : FlockOk sheep n) (hid : id < n) (hs : s.WellFormed) :
    FlockOk (sheep.insert id s) n := by
  intro j t ht
  rcases Table.of_insert ht with ⟨e, rfl⟩ | ⟨-, ht⟩
  · exact ⟨e ▸ hid, hs⟩
  · exact h j t ht

theorem erase (h : FlockOk sheep n) : FlockOk (sheep.erase id) n := by
  intro j t ht
  obtain ⟨-, ht⟩ := Table.of_erase ht
  exact h j t ht

theorem map (h : FlockOk sheep n)
    (hf : ∀ (id : ℕ) (s : SheepSlot), sheep[id]? = some s → (f s).WellFormed) :
    FlockOk (sheep.map fun _ s => f s) n := by
  intro j t ht
  rw [Table.get_map, Option.map_eq_some_iff] at ht
  obtain ⟨s, hs, rfl⟩ := ht
  exact ⟨(h j s hs).1, hf j s hs⟩

end FlockOk

namespace TasksOk

/-- A rewrite that leaves the process and the app alone. -/
theorem insert (h : TasksOk sheep tasks k) (hs : sheep[id]? = some s) (hctl : s'.ctl = s.ctl)
    (hname : s'.name = s.name) (hpid : s'.entry.pid = s.entry.pid) :
    TasksOk (sheep.insert id s') tasks k where
  owned := by
    intro t ht
    obtain ⟨u, hu, hc, hn, hp⟩ := h.owned t ht
    rw [Table.get_insert]
    split
    · next e =>
      rw [e, hs] at hu
      obtain rfl := Option.some.inj hu
      exact ⟨s', rfl, by rw [hctl, hc], by rw [hname, hn], by rw [hpid, hp]⟩
    · exact ⟨u, hu, hc, hn, hp⟩
  running := by
    intro j t m ht hm
    rcases Table.of_insert ht with ⟨e, rfl⟩ | ⟨-, ht⟩
    · exact e ▸ h.running id s m hs (by rw [← hctl, hm])
    · exact h.running j t m ht hm
  lt := h.lt
  nodup := h.nodup

theorem ne_of_idle (h : TasksOk sheep tasks k) (hid : ∀ s, sheep[id]? = some s → s.ctl = none)
    {t : Task} (ht : t ∈ tasks) : t.id ≠ id := by
  rintro rfl
  obtain ⟨u, hu, hc, -⟩ := h.owned t ht
  simp [hid u hu] at hc

theorem insert_idle (h : TasksOk sheep tasks k) (hid : ∀ s, sheep[id]? = some s → s.ctl = none)
    (hctl : s'.ctl = none) : TasksOk (sheep.insert id s') tasks k where
  owned := by
    intro t ht
    rw [Table.get_insert, if_neg (h.ne_of_idle hid ht)]
    exact h.owned t ht
  running := by
    intro j t m ht hm
    rcases Table.of_insert ht with ⟨-, rfl⟩ | ⟨-, ht⟩
    · simp [hctl] at hm
    · exact h.running j t m ht hm
  lt := h.lt
  nodup := h.nodup

theorem erase (h : TasksOk sheep tasks k) (hid : ∀ s, sheep[id]? = some s → s.ctl = none) :
    TasksOk (sheep.erase id) tasks k where
  owned := by
    intro t ht
    rw [Table.get_erase, if_neg (h.ne_of_idle hid ht)]
    exact h.owned t ht
  running := by
    intro j t m ht hm
    obtain ⟨-, ht⟩ := Table.of_erase ht
    exact h.running j t m ht hm
  lt := h.lt
  nodup := h.nodup

theorem map (h : TasksOk sheep tasks k)
    (hctl : ∀ (id : ℕ) (s : SheepSlot), sheep[id]? = some s → (f s).ctl = s.ctl)
    (hname : ∀ (id : ℕ) (s : SheepSlot), sheep[id]? = some s → (f s).name = s.name)
    (hpid : ∀ (id : ℕ) (s : SheepSlot), sheep[id]? = some s → (f s).entry.pid = s.entry.pid) :
    TasksOk (sheep.map fun _ s => f s) tasks k where
  owned := by
    intro t ht
    obtain ⟨u, hu, hc, hn, hp⟩ := h.owned t ht
    exact ⟨f u, by rw [Table.get_map, hu]; rfl, by rw [hctl _ u hu, hc], by rw [hname _ u hu, hn],
      by rw [hpid _ u hu, hp]⟩
  running := by
    intro j t m ht hm
    rw [Table.get_map, Option.map_eq_some_iff] at ht
    obtain ⟨u, hu, rfl⟩ := ht
    exact h.running j u m hu (by rw [← hctl j u hu, hm])
  lt := h.lt
  nodup := h.nodup

/-- A new task, in a slot that had none. -/
theorem launch (h : TasksOk sheep tasks k) (hid : ∀ s, sheep[id]? = some s → s.ctl = none)
    (hctl : s'.ctl = some k) (hname : s'.name = name) (via : SpawnVia) {pid : ℕ}
    (hpid : s'.entry.pid = some pid) (spec : AppConfig) (credentials : Option Credentials) :
    TasksOk (sheep.insert id s') (⟨k, id, name, via, pid, spec, credentials⟩ :: tasks)
      (k + 1) where
  owned := by
    intro t ht
    rcases List.mem_cons.1 ht with rfl | ht
    · exact ⟨s', by simp, hctl, hname, hpid⟩
    · rw [Table.get_insert, if_neg (h.ne_of_idle hid ht)]
      exact h.owned t ht
  running := by
    intro j t m ht hm
    rcases Table.of_insert ht with ⟨e, rfl⟩ | ⟨-, ht⟩
    · obtain rfl : k = m := Option.some.inj (hctl.symm.trans hm)
      exact ⟨_, List.mem_cons_self, rfl, e.symm⟩
    · obtain ⟨t', ht', hser, htid⟩ := h.running j t m ht hm
      exact ⟨t', List.mem_cons_of_mem _ ht', hser, htid⟩
  lt := by
    intro t ht
    rcases List.mem_cons.1 ht with rfl | ht
    · exact Nat.lt_succ_self k
    · exact (h.lt t ht).trans (Nat.lt_succ_self k)
  nodup := by
    rw [List.map_cons, List.nodup_cons]
    refine ⟨?_, h.nodup⟩
    rw [List.mem_map]
    rintro ⟨t, ht, hk⟩
    exact absurd (h.lt t ht) (by simp [hk])

theorem eq_of_id (h : TasksOk sheep tasks k) {t u : Task} (ht : t ∈ tasks) (hu : u ∈ tasks)
    (hid : t.id = u.id) : t = u := by
  obtain ⟨s, hs, hc, -⟩ := h.owned t ht
  obtain ⟨s', hs', hc', -⟩ := h.owned u hu
  rw [hid, hs'] at hs
  obtain rfl := Option.some.inj hs
  exact List.inj_on_of_nodup_map h.nodup ht hu (Option.some.inj (hc.symm.trans hc'))

/-- The task of a slot being emptied ends with it. -/
theorem exit (h : TasksOk sheep tasks k) {task : Task} (htask : task ∈ tasks)
    (hctl : s'.ctl = none) : TasksOk (sheep.insert task.id s') (tasks.erase task) k where
  owned := by
    intro t ht
    have hmem := List.mem_of_mem_erase ht
    have hne : t.id ≠ task.id := by
      intro e
      obtain rfl := h.eq_of_id hmem htask e
      exact (List.Nodup.of_map _ h.nodup).not_mem_erase ht
    rw [Table.get_insert, if_neg hne]
    exact h.owned t hmem
  running := by
    intro j t m ht hm
    rcases Table.of_insert ht with ⟨-, rfl⟩ | ⟨hne, ht⟩
    · simp [hctl] at hm
    · obtain ⟨t', ht', hser, htid⟩ := h.running j t m ht hm
      refine ⟨t', (List.mem_erase_of_ne ?_).2 ht', hser, htid⟩
      rintro rfl
      exact hne htid.symm
  lt := fun t ht => h.lt t (List.mem_of_mem_erase ht)
  nodup := h.nodup.sublist (List.Sublist.map _ List.erase_sublist)

end TasksOk

variable {sheep' : Std.ExtTreeMap ℕ SheepSlot} {watchdogs' : List Watchdog}

/-- A job outlives any write that renames no slot and makes no drainee of
its replacement. -/
theorem JobOk.mono (h : JobOk sheep watchdogs n name job) (hn : n ≤ n')
    (hsheep : ∀ (j : ℕ) (t' : SheepSlot), j < n → sheep'[j]? = some t' →
      ∃ t, sheep[j]? = some t ∧ t'.name = t.name ∧ ∀ q, t'.entry.reload = .drainee q →
        t.entry.reload = .drainee q ∨ job.swap.newId ≠ some j)
    (hw : ⟨name, job.deadline⟩ ∈ watchdogs') : JobOk sheep' watchdogs' n' name job where
  old_lt := h.old_lt.trans_le hn
  new_lt := fun id hid => (h.new_lt id hid).trans_le hn
  queue_lt := fun id hid => (h.queue_lt id hid).trans_le hn
  distinct := h.distinct
  queued := h.queued
  new_queued := h.new_queued
  old_name := by
    intro t' ht'
    obtain ⟨t, ht, he, -⟩ := hsheep _ t' h.old_lt ht'
    rw [he, h.old_name t ht]
  new_name := by
    intro id t' hid ht'
    obtain ⟨t, ht, he, -⟩ := hsheep id t' (h.new_lt id hid) ht'
    rw [he, h.new_name id t hid ht]
  queue_name := by
    intro id hid t' ht'
    obtain ⟨t, ht, he, -⟩ := hsheep id t' (h.queue_lt id hid) ht'
    rw [he, h.queue_name id hid t ht]
  new_mark := by
    intro id t' q hid ht' hq
    obtain ⟨t, ht, -, hd⟩ := hsheep id t' (h.new_lt id hid) ht'
    rcases hd q hq with hq | hq
    · exact h.new_mark id t q hid ht hq
    · exact hq hid
  phase := h.phase
  serial := h.serial
  watched := hw

/-- Replacements stay named under a write that marks no slot anew, starts
no replacement over and registers no drainee. -/
theorem MarksOk.mono (h : MarksOk x sheep reloads down)
    (hmark : ∀ (j : ℕ) (t' : SheepSlot), sheep'[j]? = some t' → t'.entry.reload = .replacement →
      (∀ taken, x ≠ .exiting j taken) →
      ∃ t, sheep[j]? = some t ∧ t.entry.reload = .replacement ∧
        (t.ctl.isSome = true → t'.ctl.isSome = true) ∧ t'.name = t.name ∧
        (t'.entry.status = .starting → t.entry.status = .starting))
    (hreg : ∀ (m : String) (job : ReloadJob), reloads[m]? = some job →
      (sheep'[job.swap.oldId]?).isSome = true → (sheep[job.swap.oldId]?).isSome = true) :
    MarksOk x sheep' reloads down where
  dropped := h.dropped
  marked := by
    intro j t' ht' hr hx
    obtain ⟨t, ht, hr', hctl, hn, hst⟩ := hmark j t' ht' hr hx
    obtain ⟨hlive, hjob⟩ := h.marked j t ht hr' hx
    refine ⟨hctl hlive, fun hdown => ?_⟩
    obtain ⟨job, hj, hnew, hphase⟩ := hjob hdown
    exact ⟨job, hn ▸ hj, hnew, fun hs ho => hphase (hst hs) (hreg _ job hj ho)⟩

theorem RepliesOk.mono (h : RepliesOk x sheep pending k)
    (hlive : ∀ (j : ℕ) (t : SheepSlot), sheep[j]? = some t → t.ctl.isSome = true →
      ∃ t' : SheepSlot, sheep'[j]? = some t' ∧ t'.ctl.isSome = true) :
    RepliesOk x sheep' pending k where
  waiting := by
    intro p hp
    refine ⟨(h.waiting p hp).1, fun j hj => ?_⟩
    rcases (h.waiting p hp).2 j hj with ⟨t, ht, hc⟩ | hx
    · exact Or.inl (hlive j t ht hc)
    · exact Or.inr hx
  lt := h.lt
  nodup := h.nodup

/-- A slot entered in the table keeps every job right when each job that
names its id is its own app's and takes it for no drainee of another. -/
theorem JobsOk.seat (h : JobsOk sheep reloads watchdogs n)
    (hnames : ∀ (m : String) (job : ReloadJob), reloads[m]? = some job →
      job.swap.oldId = id ∨ job.swap.newId = some id ∨ id ∈ job.queue → s'.name = m)
    (hdrain : ∀ (m : String) (job : ReloadJob), reloads[m]? = some job →
      job.swap.newId = some id → ∀ q, s'.entry.reload ≠ .drainee q) :
    JobsOk (sheep.insert id s') reloads watchdogs n := by
  intro m job hj
  have hjob := h m job hj
  -- a lookup of an id the job names reads the entered slot or an old one
  have hread : ∀ (j : ℕ) (t : SheepSlot), (sheep.insert id s')[j]? = some t →
      j = id ∧ t = s' ∨ sheep[j]? = some t := by
    intro j t ht
    rw [Table.get_insert] at ht
    split at ht
    · next e => exact Or.inl ⟨e, (Option.some.inj ht).symm⟩
    · exact Or.inr ht
  refine { hjob with old_name := ?_, new_name := ?_, queue_name := ?_, new_mark := ?_ }
  · intro t ht
    rcases hread _ t ht with ⟨e, rfl⟩ | ht
    · exact hnames m job hj (Or.inl e)
    · exact hjob.old_name t ht
  · intro j t hnew ht
    rcases hread j t ht with ⟨rfl, rfl⟩ | ht
    · exact hnames m job hj (Or.inr (Or.inl hnew))
    · exact hjob.new_name j t hnew ht
  · intro j hq t ht
    rcases hread j t ht with ⟨rfl, rfl⟩ | ht
    · exact hnames m job hj (Or.inr (Or.inr hq))
    · exact hjob.queue_name j hq t ht
  · intro j t q hnew ht
    rcases hread j t ht with ⟨rfl, rfl⟩ | ht
    · exact hdrain m job hj hnew q
    · exact hjob.new_mark j t q hnew ht

theorem JobsOk.mono (h : JobsOk sheep reloads watchdogs n) (hn : n ≤ n')
    (hw : ∀ w ∈ watchdogs, w ∈ watchdogs') : JobsOk sheep reloads watchdogs' n' := by
  intro m job hj
  exact (h m job hj).mono hn (fun _ t' _ ht' => ⟨t', ht', rfl, fun _ hq => Or.inl hq⟩)
    (hw _ (h m job hj).watched)

theorem JobsOk.erase (h : JobsOk sheep reloads watchdogs n) :
    JobsOk (sheep.erase id) reloads watchdogs n := by
  intro m job hj
  refine (h m job hj).mono le_rfl ?_ (h m job hj).watched
  intro j t' _ ht'
  obtain ⟨-, ht'⟩ := Table.of_erase ht'
  exact ⟨t', ht', rfl, fun _ hq => Or.inl hq⟩

theorem JobsOk.drop (h : JobsOk sheep reloads watchdogs n) (m : String) :
    JobsOk sheep (reloads.erase m) watchdogs n := by
  intro m' job hj
  obtain ⟨-, hj⟩ := Table.of_erase hj
  exact h m' job hj

theorem JobsOk.put (h : JobsOk sheep reloads watchdogs n) (hjob : JobOk sheep watchdogs n name job) :
    JobsOk sheep (reloads.insert name job) watchdogs n := by
  intro m job' hj
  rcases Table.of_insert hj with ⟨e, rfl⟩ | ⟨-, hj⟩
  · exact e ▸ hjob
  · exact h m job' hj

/-- A slot entered in the table: a replacement only where its job names it,
and under a drainee's id only over that drainee. -/
theorem MarksOk.seat (h : MarksOk x sheep reloads down)
    (hold : ∀ (m : String) (job : ReloadJob), reloads[m]? = some job → job.swap.oldId = id →
      (sheep[id]?).isSome = true)
    (hmark : s'.entry.reload = .replacement → (∀ taken, x ≠ .exiting id taken) →
      s'.ctl.isSome = true ∧ (down = false → ∃ job : ReloadJob, reloads[s'.name]? = some job ∧
        job.swap.newId = some id ∧ job.swap.phase = .awaitReady)) :
    MarksOk x (sheep.insert id s') reloads down where
  dropped := h.dropped
  marked := by
    intro j t ht hr hx
    rcases Table.of_insert ht with ⟨e, rfl⟩ | ⟨-, ht⟩
    · subst e
      obtain ⟨hlive, hjob⟩ := hmark hr hx
      refine ⟨hlive, fun hdown => ?_⟩
      obtain ⟨job, hj, hnew, hphase⟩ := hjob hdown
      exact ⟨job, hj, hnew, fun _ _ => hphase⟩
    · obtain ⟨hlive, hjob⟩ := h.marked j t ht hr hx
      refine ⟨hlive, fun hdown => ?_⟩
      obtain ⟨job, hj, hnew, hphase⟩ := hjob hdown
      refine ⟨job, hj, hnew, fun hst ho => hphase hst ?_⟩
      rw [Table.get_insert] at ho
      split at ho
      · next e => exact e ▸ hold _ job hj e
      · exact ho

theorem MarksOk.erase (h : MarksOk x sheep reloads down) :
    MarksOk x (sheep.erase id) reloads down := by
  refine h.mono ?_ ?_
  · intro j t' ht' hr _
    obtain ⟨-, ht'⟩ := Table.of_erase ht'
    exact ⟨t', ht', hr, fun hc => hc, rfl, fun hst => hst⟩
  · intro m job _ ho
    rw [Table.get_erase] at ho
    split at ho
    · cases ho
    · exact ho

theorem MarksOk.put (h : MarksOk x sheep reloads down) (hdown : down = false)
    (hput : ∀ (j : ℕ) (t : SheepSlot), sheep[j]? = some t → t.entry.reload = .replacement →
      t.name = name → (∀ taken, x ≠ .exiting j taken) → job.swap.newId = some j ∧
        (t.entry.status = .starting → (sheep[job.swap.oldId]?).isSome = true →
          job.swap.phase = .awaitReady)) :
    MarksOk x sheep (reloads.insert name job) down where
  dropped := by simp [hdown]
  marked := by
    intro j t ht hr hx
    refine ⟨(h.marked j t ht hr hx).1, fun _ => ?_⟩
    rw [Table.get_insert]
    split
    · next e => exact ⟨job, rfl, hput j t ht hr e hx⟩
    · exact (h.marked j t ht hr hx).2 hdown

theorem MarksOk.drop (h : MarksOk x sheep reloads down)
    (hdrop : ∀ (j : ℕ) (t : SheepSlot), sheep[j]? = some t → t.entry.reload = .replacement →
      (∀ taken, x ≠ .exiting j taken) → down = false → t.name ≠ name) :
    MarksOk x sheep (reloads.erase name) down where
  dropped := by
    intro hdown m
    simp [h.dropped hdown m]
  marked := by
    intro j t ht hr hx
    refine ⟨(h.marked j t ht hr hx).1, fun hdown => ?_⟩
    rw [Table.get_erase, if_neg (hdrop j t ht hr hx hdown)]
    exact (h.marked j t ht hr hx).2 hdown

theorem RepliesOk.seat (h : RepliesOk x sheep pending k)
    (hidle : ∀ s, sheep[id]? = some s → s.ctl = none) :
    RepliesOk x (sheep.insert id s') pending k := by
  refine h.mono ?_
  intro j t ht hc
  have hne : j ≠ id := by
    rintro rfl
    simp [hidle t ht] at hc
  exact ⟨t, by rw [Table.get_insert, if_neg hne, ht], hc⟩

theorem RepliesOk.erase (h : RepliesOk x sheep pending k)
    (hidle : ∀ s, sheep[id]? = some s → s.ctl = none) :
    RepliesOk x (sheep.erase id) pending k := by
  refine h.mono ?_
  intro j t ht hc
  have hne : j ≠ id := by
    rintro rfl
    simp [hidle t ht] at hc
  exact ⟨t, by rw [Table.get_erase, if_neg hne, ht], hc⟩

theorem TimersOk.mono {timers : List RestartTimer} (h : TimersOk timers n k) (hn : n ≤ n') :
    TimersOk timers n' k :=
  { h with id_lt := fun t ht => (h.id_lt t ht).trans_le hn }

theorem TimersOk.erase {timers : List RestartTimer} (h : TimersOk timers n k) (t : RestartTimer) :
    TimersOk (timers.erase t) n k where
  id_lt := fun t' ht' => h.id_lt t' (List.mem_of_mem_erase ht')
  lt := fun t' ht' => h.lt t' (List.mem_of_mem_erase ht')
  nodup := h.nodup.sublist (List.Sublist.map _ List.erase_sublist)

theorem TimersOk.cons {timers : List RestartTimer} (h : TimersOk timers n k) (hid : id < n)
    (epoch : ℕ) (delay : Option ℕ) : TimersOk (⟨k, id, epoch, delay⟩ :: timers) n (k + 1) where
  id_lt := by
    intro t ht
    rcases List.mem_cons.1 ht with rfl | ht
    · exact hid
    · exact h.id_lt t ht
  lt := by
    intro t ht
    rcases List.mem_cons.1 ht with rfl | ht
    · exact Nat.lt_succ_self k
    · exact (h.lt t ht).trans (Nat.lt_succ_self k)
  nodup := by
    rw [List.map_cons, List.nodup_cons]
    refine ⟨?_, h.nodup⟩
    rw [List.mem_map]
    rintro ⟨t, ht, hk⟩
    exact absurd (h.lt t ht) (by simp [hk])

theorem WatchdogsOk.cons (h : WatchdogsOk watchdogs k) (name : String) :
    WatchdogsOk (⟨name, k⟩ :: watchdogs) (k + 1) where
  lt := by
    intro w hw
    rcases List.mem_cons.1 hw with rfl | hw
    · exact Nat.lt_succ_self k
    · exact (h.lt w hw).trans (Nat.lt_succ_self k)
  nodup := List.nodup_cons.2 ⟨fun hw => absurd (h.lt _ hw) (lt_irrefl k), h.nodup⟩

theorem WatchdogsOk.erase (h : WatchdogsOk watchdogs k) (w : Watchdog) :
    WatchdogsOk (watchdogs.erase w) k where
  lt := fun w' hw' => h.lt w' (List.mem_of_mem_erase hw')
  nodup := h.nodup.erase w

end Parts

/-! ## The invariant under the kinds of write -/

namespace Inv

variable {x : Hole} {a : Actor} {id : ℕ} {s s' : SheepSlot} {n : String} {job : ReloadJob}

theorem lt_nextId (h : Inv x a) (hs : a.sheep[id]? = some s) : id < a.nextId := (h.flock id s hs).1

theorem wellFormed (h : Inv x a) (hs : a.sheep[id]? = some s) : s.WellFormed := (h.flock id s hs).2

theorem fresh_id (h : Inv x a) : a.sheep[a.nextId]? = none := by
  cases hs : a.sheep[a.nextId]? with
  | none => rfl
  | some s => exact absurd (h.lt_nextId hs) (lt_irrefl _)

theorem reloads_of_newId (h : Inv x a) (hs : a.sheep[id]? = some s) (hj : a.reloads[n]? = some job)
    (hnew : job.swap.newId = some id) : s.name = n :=
  (h.jobs n job hj).new_name id s hnew hs

/-- **A rewrite of one slot** that leaves its process and its app alone,
marks it a replacement or a drainee only where it may be one, and starts
no replacement over. -/
theorem write (h : Inv x a) (hs : a.sheep[id]? = some s) (hwf : s'.WellFormed)
    (hname : s'.name = s.name) (hctl : s'.ctl = s.ctl) (hpid : s'.entry.pid = s.entry.pid)
    (hmark : s'.entry.reload = .replacement → s.entry.reload = .replacement ∧
      (s'.entry.status = .starting → s.entry.status = .starting))
    (hdrain : ∀ q, s'.entry.reload = .drainee q → s.entry.reload = .drainee q ∨
      ∀ (n : String) (job : ReloadJob), a.reloads[n]? = some job → job.swap.newId ≠ some id)
    (trace : List Effect) :
    Inv x { a with sheep := a.sheep.insert id s', trace := trace } where
  flock := h.flock.insert (h.lt_nextId hs) hwf
  tasks := h.tasks.insert hs hctl hname hpid
  jobs := by
    intro m job hj
    refine (h.jobs m job hj).mono le_rfl ?_ (h.jobs m job hj).watched
    intro j t' _ ht'
    rcases Table.of_insert ht' with ⟨e, rfl⟩ | ⟨-, ht'⟩
    · subst e
      exact ⟨s, hs, hname, fun q hq => (hdrain q hq).imp_right fun hne => hne m job hj⟩
    · exact ⟨t', ht', rfl, fun _ hq => Or.inl hq⟩
  marks := by
    refine h.marks.mono ?_ ?_
    · intro j t' ht' hr _
      rcases Table.of_insert ht' with ⟨e, rfl⟩ | ⟨-, ht'⟩
      · subst e
        exact ⟨s, hs, (hmark hr).1, by simp [hctl], hname, (hmark hr).2⟩
      · exact ⟨t', ht', hr, fun hc => hc, rfl, fun hst => hst⟩
    · intro m job _ ho
      rw [Table.get_insert] at ho
      split at ho
      · next e => simp [e, hs]
      · exact ho
  replies := by
    refine h.replies.mono ?_
    intro j t ht hc
    rw [Table.get_insert]
    split
    · next e =>
      rw [e, hs] at ht
      obtain rfl := Option.some.inj ht
      exact ⟨s', rfl, by rw [hctl, hc]⟩
    · exact ⟨t, ht, hc⟩
  timers := h.timers
  watchdogs := h.watchdogs

/-- A rewrite of every slot that leaves each one's process, app, status and
reload marker alone. -/
theorem writeAll (h : Inv x a) {f : SheepSlot → SheepSlot}
    (hwf : ∀ (id : ℕ) (s : SheepSlot), a.sheep[id]? = some s → (f s).WellFormed)
    (hname : ∀ (id : ℕ) (s : SheepSlot), a.sheep[id]? = some s → (f s).name = s.name)
    (hctl : ∀ (id : ℕ) (s : SheepSlot), a.sheep[id]? = some s → (f s).ctl = s.ctl)
    (hpid : ∀ (id : ℕ) (s : SheepSlot), a.sheep[id]? = some s → (f s).entry.pid = s.entry.pid)
    (hstatus : ∀ (id : ℕ) (s : SheepSlot), a.sheep[id]? = some s →
      (f s).entry.status = s.entry.status)
    (hreload : ∀ (id : ℕ) (s : SheepSlot), a.sheep[id]? = some s →
      (f s).entry.reload = s.entry.reload) :
    Inv x (a.mapSlots f) where
  flock := h.flock.map hwf
  tasks := h.tasks.map hctl hname hpid
  jobs := by
    intro m job hj
    refine (h.jobs m job hj).mono le_rfl ?_ (h.jobs m job hj).watched
    intro j t' _ ht'
    rw [Actor.mapSlots, Table.get_map, Option.map_eq_some_iff] at ht'
    obtain ⟨t, ht, rfl⟩ := ht'
    exact ⟨t, ht, hname j t ht, fun q hq => Or.inl (by rw [← hreload j t ht, hq])⟩
  marks := by
    refine h.marks.mono ?_ ?_
    · intro j t' ht' hr _
      rw [Actor.mapSlots, Table.get_map, Option.map_eq_some_iff] at ht'
      obtain ⟨t, ht, rfl⟩ := ht'
      rw [hreload j t ht] at hr
      exact ⟨t, ht, hr, by simp [hctl j t ht], hname j t ht, by simp [hstatus j t ht]⟩
    · intro m job _ ho
      simpa [Actor.mapSlots] using ho
  replies := by
    refine h.replies.mono ?_
    intro j t ht hc
    exact ⟨f t, by simp [Actor.mapSlots, ht], by rw [hctl j t ht, hc]⟩
  timers := h.timers
  watchdogs := h.watchdogs

end Inv

end Supervisor

end Shep
