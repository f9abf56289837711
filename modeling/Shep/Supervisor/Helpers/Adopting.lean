import Shep.Supervisor.Helpers.Turning
import Shep.Supervisor.Model.Handover

/-!
# Supervisor — what an adopted flock is made of

A row at a time: what `install_adopted` leaves of a carried row in an
actor that does not hold its id yet, and what `install_carried_reloads`
leaves of a carried job. `Waits` is the fact about the predecessor that
makes every readiness wait come back: outside exits, a slot shown
`Starting` has a process, or a reload has already given up on it.
-/

namespace Shep

namespace Supervisor

open Shep.Table

/-! ## Starting slots -/

/-- A starting slot has a process, or its readiness has already failed. -/
def SheepSlot.Waits (x : Hole) (id : ℕ) (s : SheepSlot) : Prop :=
  x.Spares id → s.entry.status = .starting → s.ctl.isSome = true ∨ s.readyFailed = true

section Waits

variable {x : Hole} {id : ℕ} {s s' : SheepSlot}

theorem SheepSlot.Waits.of_status (h : s.entry.status ≠ .starting) : s.Waits x id :=
  fun _ hst => absurd hst h

theorem SheepSlot.Waits.of_live (h : s.ctl.isSome = true) : s.Waits x id :=
  fun _ _ => Or.inl h

theorem SheepSlot.Waits.rewrite (h : s.Waits x id) (hctl : s'.ctl = s.ctl)
    (hready : s'.readyFailed = s.readyFailed)
    (hst : s'.entry.status = .starting → s.entry.status = .starting) : s'.Waits x id := by
  intro hx hs'
  rw [hctl, hready]
  exact h hx (hst hs')

theorem SheepSlot.Waits.restoredStatus (s : SheepSlot) (h : restoredStatus s = .starting) :
    s.readyFailed = true := by
  unfold Supervisor.restoredStatus at h
  split at h
  · assumption
  · cases h

end Waits

/-- **A move leaves no starting slot without a process or a verdict.** -/
theorem Move.waits {c : Turn} {p q : Point} (hm : Move c p q)
    (h : Each (SheepSlot.Waits p.hole) p.actor.sheep) :
    Each (SheepSlot.Waits q.hole) q.actor.sheep := by
  cases hm with
  | quiet | bump | hear | drains | answer | park | halt | disable | enable | expire | unwatch |
    panic | assertFail | commit | verify | drop | shutdown => exact h
  | edit s' hs hag =>
    exact h.insert ((h _ _ hs).rewrite hag.ctl hag.readyFailed fun hst => hag.status ▸ hst)
  | editAll f hf =>
    refine h.map fun id s hs hw => ?_
    have hag := hf id s hs
    exact hw.rewrite hag.ctl hag.readyFailed fun hst => hag.status ▸ hst
  | rest hs hctl hrest hstatus =>
    refine h.insert (.of_status ?_)
    rw [hrest.status]
    rcases hstatus with e | ⟨e, -⟩ <;> simp [e]
  | backOff delay hs hctl hrest _ _ =>
    refine h.insert (.of_status ?_)
    simp [hrest.status]
  | register hs hst _ =>
    refine h.insert (.of_status ?_)
    rcases hst with e | ⟨e, -⟩ <;> simp [e]
  | launch hs _ _ _ _ _ => exact h.insert (.of_live (by simp [hs.ctl_eq]))
  | reseat hs hctl hs' hst _ _ _ _ _ _ => exact h.insert (.of_status (by simp [hst]))
  | reseatLive hs hctl hs' _ _ _ _ _ _ _ _ => exact h.insert (.of_live (by simp [hs'.ctl_eq]))
  | relaunch hs hctl hrel _ _ _ _ => exact h.insert (.of_live (by simp [hrel.ctl]))
  | claim m cap hs _ _ _ _ | displace m cap hs _ _ _ _ _ | doom hs _ _ | unmark hs _
  | lapse _ _ hs => exact h.insert ((h _ _ hs).rewrite rfl rfl fun hst => hst)
  | remarkStop names _ | remarkRestart names _ _ =>
    refine h.map fun id s _ hw => ?_
    split
    · exact hw.rewrite rfl rfl fun hst => hst
    · exact hw
  | deregister => exact h.erase _
  | @exit a s task outcome _ _ _ _ _ =>
    have hx : Each (SheepSlot.Waits (.exiting task.id s)) a.sheep :=
      h.imp fun id t _ hw _ => hw (Hole.none_spares id)
    exact hx.insert fun hsp => absurd rfl (hsp s)
  | @resolve a id taken info hset _ =>
    rw [Actor.resolvePending_eq]
    intro j s hs _ hst
    by_cases e : j = id
    · subst e
      cases hctl : s.ctl with
      | some t => exact Or.inl rfl
      | none =>
        have hrest := (hset.2 s hs).2.1 hctl
        simp [hst] at hrest
    · refine h j s hs (fun t ht => e ?_) hst
      exact (Hole.exiting.inj ht).1.symm
  | fire t _ _ _ _ _ _ _ => exact h.imp fun id s _ hw _ => hw (Hole.none_spares id)
  | honour => exact h.imp fun id s _ hw _ => hw (Hole.due_spares id _)
  | beginOverlap hs _ _ _ _ _ hrepl _ _ _ _ _ _ | serialSpawn hs _ _ _ _ _ _ hrepl _ =>
    exact (h.insert (.of_status (by simp [SheepSlot.draining, SheepSlot.setStatus,
      SheepSlot.setReload]))).insert (.of_live (by simp [hrepl.ctl]))
  | putBack hs _ _ => exact h.insert fun _ hst => Or.inr (SheepSlot.Waits.restoredStatus _ hst)
  | beginSerial hs _ _ _ _ _ _ _ _ _ | scratch hs _ _ _ =>
    exact h.insert (.of_status (by simp [SheepSlot.draining, SheepSlot.setStatus,
      SheepSlot.setReload]))
  | @restore x a n job s hj hphase hs hnew =>
    refine (h.insert ?_ : Each (SheepSlot.Waits x) (a.sheep.insert job.swap.oldId s.restore))
    simp only [SheepSlot.restore]
    split
    · next hlive => exact .of_live (Bool.and_eq_true_iff.1 hlive).1
    · exact (h _ _ hs).rewrite rfl rfl fun hst => hst
  | online hs _ _ _ => exact h.insert (.of_status (by simp [SheepSlot.setStatus]))
  | parkFailed hs _ | demote hs _ _ _ => exact h.insert fun _ _ => Or.inr rfl

/-- **A starting slot of a reachable state has a process**, or a reload has
already given up on it. -/
theorem waits_run {dogBinaries : List (String × String)} {h : List (Actor × World × Msg)}
    {a : Actor} (hr : Run Actor.Step (.init dogBinaries) h a) :
    Each (SheepSlot.Waits .none) a.sheep :=
  run_keeps (C := fun _ => True) (Q := fun a => Each (SheepSlot.Waits .none) a.sheep)
    (P := fun _ p => Each (SheepSlot.Waits p.hole) p.actor.sheep) (fun _ _ _ h => h)
    (fun _ _ _ _ _ h hm => hm.waits h) (fun _ _ h => h) hr meets_true (Actor.inv_init dogBinaries)
    (by simp [Each, Actor.init])

/-! ## One row -/

namespace CarriedSheep

/-- The slot a row becomes: everything it carries, a task where it carries
a process, and a marker only beside one. -/
structure Becomes (row : CarriedSheep) (s : SheepSlot) : Prop where
  spec : s.entry.spec = row.app
  pending : s.entry.pending = row.pending
  reidentifies : s.entry.pendingReidentifies =
    (row.pending.isSome && row.pendingReidentifies.getD false)
  inst : s.entry.inst = row.inst
  status : s.entry.status = row.status
  pid : s.entry.pid = row.pid
  startedAt : s.entry.startedAt.isSome = row.pid.isSome
  restarts : s.entry.restarts = row.restarts
  reload : s.entry.reload = row.reload.getD .none
  credentials : s.entry.credentials = row.credentials
  dog : s.entry.dog = row.dog
  lastExit : s.entry.lastExit = row.lastExit
  spawnFailure : s.entry.spawnFailure = row.spawnFailure
  ctl : s.ctl.isSome = row.pid.isSome
  manual : s.manual = if row.pid.isSome then row.manual else none
  pendingDelete : s.pendingDelete = row.pendingDelete.getD false
  epoch : s.epoch = row.epoch
  readyFailed : s.readyFailed = row.readyFailed.getD false

/-- The successor accepts what the row carries: its `normalize` gives both
configs back, and the runner wraps the very process. -/
structure Accepted (heir : Heir) (row : CarriedSheep) : Prop where
  app : heir.normalize row.app = .ok row.app
  pending : ∀ parked, row.pending = some parked → heir.normalize parked = .ok parked
  adopt : ∀ pid, row.pid = some pid → heir.adopt row.name pid = .ok pid

theorem Accepted.adoptedPending {heir : Heir} {row : CarriedSheep} (h : row.Accepted heir) :
    row.adoptedPending heir = row.pending := by
  unfold CarriedSheep.adoptedPending
  cases hp : row.pending with
  | none => rfl
  | some parked => simp [h.pending parked hp, Except.toOption]

end CarriedSheep

/-- The timers in flight for `id` under `epoch`. -/
def Actor.timersOf (a : Actor) (id epoch : ℕ) : List RestartTimer :=
  a.timers.filter fun t => t.id == id && t.epoch == epoch

/-- What a carried row's slot waits on is in flight again: the timer of an
owed respawn, the readiness wait of a starting process, and the ladder of
a marker. -/
structure CarriedSheep.Rearmed (row : CarriedSheep) (s : SheepSlot) (a : Actor) : Prop where
  timer : row.pid = none → row.status = .waitingRestart →
    (a.timersOf row.id row.epoch).length = 1
  ready : row.pid.isSome = true → row.status = .starting → row.readyFailed.getD false = false →
    ⟨row.id, row.epoch, row.reload.getD .none == .replacement⟩ ∈ a.readies
  ladder : ∀ m, s.manual = some m → ∃ task, s.ctl = some task ∧
    .killed task (row.ladderCap.of row.app) ∈ a.trace ∧ .claimed row.id m row.ladderCap ∈ a.trace

/-- What installing a row does to the actor: one slot, at most one timer,
all of it under the row's id. -/
structure Actor.Installs (row : CarriedSheep) (a b : Actor) : Prop where
  slot : ∃ s, b.sheep = a.sheep.insert row.id s ∧ row.Becomes s ∧
    ((∀ t ∈ a.timers, t.id ≠ row.id) → row.Rearmed s b) ∧
    (∀ k, s.ctl = some k → ∃ pid, k = a.nextTask ∧ row.pid = some pid ∧
      b.tasks = ⟨k, row.id, row.app.name, .adopted, pid, row.app, row.credentials.credentials⟩ ::
        a.tasks ∧ b.nextTask = k + 1) ∧
    (s.ctl = none → b.tasks = a.tasks ∧ b.nextTask = a.nextTask)
  timers : b.timers = a.timers ∧ b.nextTimer = a.nextTimer ∨
    ∃ delay, b.timers = ⟨a.nextTimer, row.id, row.epoch, delay⟩ :: a.timers ∧
      b.nextTimer = a.nextTimer + 1
  readies : ∀ wait ∈ a.readies, wait ∈ b.readies
  trace : ∀ e ∈ a.trace, e ∈ b.trace
  disabled : b.disabled = a.disabled
  rest : b.nextId = a.nextId ∧ b.nextDeadline = a.nextDeadline ∧ b.reloads = a.reloads ∧
    b.watchdogs = a.watchdogs ∧ b.verifies = a.verifies ∧ b.pending = a.pending ∧
    b.shuttingDown = a.shuttingDown ∧ b.nextReply = a.nextReply

section Install

variable {heir : Heir} {row : CarriedSheep}

/-- The entry of an accepted row is what the row becomes, once the pid and
the start are written. -/
theorem CarriedSheep.Accepted.becomes (h : row.Accepted heir) (overridden : List String)
    (startedAt : Option ℕ) {s : SheepSlot}
    (hentry : s.entry = { row.adoptedEntry heir row.app overridden with startedAt := startedAt })
    (hstarted : startedAt.isSome = row.pid.isSome) (hctl : s.ctl.isSome = row.pid.isSome)
    (hmanual : s.manual = if row.pid.isSome then row.manual else none)
    (hdelete : s.pendingDelete = row.pendingDelete.getD false) (hepoch : s.epoch = row.epoch)
    (hready : s.readyFailed = row.readyFailed.getD false) : row.Becomes s := by
  constructor <;> try assumption
  all_goals simp only [hentry, CarriedSheep.adoptedEntry, h.adoptedPending]
  exact hstarted

/-- A row with no process leaves a slot, and a timer where a respawn was
owed. -/
theorem Actor.installIdle_installs (h : row.Accepted heir) (hpid : row.pid = none)
    (overridden : List String) (a : Actor) :
    Actor.Installs row a
      (a.installIdle heir row row.app (row.adoptedEntry heir row.app overridden)) := by
  set s : SheepSlot :=
    { entry := row.adoptedEntry heir row.app overridden
      pendingDelete := row.pendingDelete.getD false
      epoch := row.epoch
      readyFailed := row.readyFailed.getD false } with hs
  have hbecomes : row.Becomes s :=
    h.becomes overridden none rfl (by simp [hpid]) (by simp [hs, hpid]) (by simp [hs, hpid]) rfl rfl
      rfl
  by_cases hst : row.status = .waitingRestart
  · simp only [Actor.installIdle, hst, if_true]
    refine ⟨⟨s, rfl, hbecomes, fun hfree => ⟨fun _ _ => ?_, by simp [hpid], by simp [hs]⟩,
      by simp [hs], fun _ => ⟨rfl, rfl⟩⟩, Or.inr ⟨_, rfl, rfl⟩, fun _ hw => hw,
      fun _ he => List.mem_cons_of_mem _ he, rfl, rfl, rfl, rfl, rfl, rfl, rfl, rfl, rfl⟩
    have hnone : a.timers.filter (fun t => t.id == row.id && t.epoch == row.epoch) = [] := by
      rw [List.filter_eq_nil_iff]
      intro t ht
      simp [hfree t ht]
    simp [Actor.timersOf, Actor.scheduleRestart, Actor.setSlot, hnone]
  · simp only [Actor.installIdle, hst, if_false]
    exact ⟨⟨s, rfl, hbecomes, fun _ => ⟨fun _ he => absurd he hst, by simp [hpid], by simp [hs]⟩,
      by simp [hs], fun _ => ⟨rfl, rfl⟩⟩, Or.inl ⟨rfl, rfl⟩, fun _ hw => hw, fun _ he => he, rfl,
      rfl, rfl, rfl, rfl, rfl, rfl, rfl, rfl⟩

/-- A row with a process leaves a slot around its task, with the readiness
wait of a starting one and the ladder of a claimed one. -/
theorem Actor.installLive_installs (h : row.Accepted heir) {pid : ℕ} (hpid : row.pid = some pid)
    (overridden : List String) (a : Actor) :
    Actor.Installs row a
      (a.installLive heir row row.app (row.adoptedEntry heir row.app overridden) pid) := by
  have hentry : ({ row.adoptedEntry heir row.app overridden with
      pid := some pid, startedAt := some (heir.startedAtOf pid) } : ProcessEntry) =
      { row.adoptedEntry heir row.app overridden with
        startedAt := some (heir.startedAtOf pid) } := by
    simp [CarriedSheep.adoptedEntry, hpid]
  set s : SheepSlot :=
    { entry := { row.adoptedEntry heir row.app overridden with
        pid := some pid, startedAt := some (heir.startedAtOf pid) }
      ctl := some a.nextTask
      pendingDelete := row.pendingDelete.getD false
      epoch := row.epoch
      readyFailed := row.readyFailed.getD false } with hs
  -- the readiness wait, armed before the slot is entered
  obtain ⟨readies, harmed, hmem, hready⟩ : ∃ readies, (if row.status = .starting ∧
      row.readyFailed.getD false = false then
        a.armReady row.id row.epoch (row.reload.getD .none == .replacement) else a) =
      { a with readies := readies } ∧ (∀ wait ∈ a.readies, wait ∈ readies) ∧
      (row.status = .starting → row.readyFailed.getD false = false →
        ⟨row.id, row.epoch, row.reload.getD .none == .replacement⟩ ∈ readies) := by
    by_cases hwait : row.status = .starting ∧ row.readyFailed.getD false = false
    · refine ⟨_, by rw [if_pos hwait]; rfl, fun _ hw => List.mem_cons_of_mem _ hw, fun _ _ => ?_⟩
      exact List.mem_cons_self
    · exact ⟨a.readies, by rw [if_neg hwait], fun _ hw => hw, fun hst hf => absurd ⟨hst, hf⟩ hwait⟩
  simp only [Actor.installLive, harmed]
  cases hm : row.manual with
  | none =>
    have hbecomes : row.Becomes s :=
      h.becomes overridden _ hentry (by simp [hpid]) (by simp [hs, hpid]) (by simp [hs, hm]) rfl rfl
        rfl
    refine ⟨⟨s, rfl, hbecomes, fun _ => ⟨by simp [hpid], fun _ => hready, by simp [hs]⟩, ?_,
      by simp [hs]⟩, Or.inl ⟨rfl, rfl⟩, hmem, fun _ he => he, rfl, rfl, rfl, rfl, rfl, rfl, rfl, rfl,
      rfl⟩
    rintro k hk
    obtain rfl : a.nextTask = k := Option.some.inj hk
    exact ⟨pid, rfl, hpid, rfl, rfl⟩
  | some m =>
    have hbecomes : row.Becomes { s with manual := some m } :=
      h.becomes overridden _ hentry (by simp [hpid]) (by simp [hs, hpid]) (by simp [hm, hpid]) rfl
        rfl rfl
    simp only [Actor.claimManual, Actor.get_setSlot, Actor.mark, Actor.sendKill]
    refine ⟨⟨{ s with manual := some m }, ?_, hbecomes,
      fun _ => ⟨by simp [hpid], fun _ => hready, ?_⟩, ?_, by simp [hs]⟩, Or.inl ⟨rfl, rfl⟩, hmem,
      fun _ he => by simp [Actor.setSlot, Actor.adoptTask, he], rfl, rfl, rfl, rfl, rfl, rfl, rfl,
      rfl, rfl⟩
    · simp [Actor.setSlot, Actor.adoptTask, hs]
    · rintro m' hm'
      obtain rfl := Option.some.inj hm'
      exact ⟨a.nextTask, rfl, by simp [CarriedSheep.adoptedEntry], by simp⟩
    · rintro k hk
      obtain rfl : a.nextTask = k := Option.some.inj hk
      exact ⟨pid, rfl, hpid, rfl, rfl⟩

/-- The mark a row brings is on its app before its slot is entered. -/
def Actor.markRow (a : Actor) (row : CarriedSheep) : Actor :=
  if row.disabled = some true then { a with disabled := [row.app.name] ∪ a.disabled } else a

theorem Actor.markRow_eq (a : Actor) (row : CarriedSheep) :
    a.markRow row = { a with disabled := (a.markRow row).disabled } := by
  unfold Actor.markRow
  split <;> rfl

/-- **`install_adopted` of an accepted row**: it is not refused, and does
what `Installs` says. -/
theorem Shepherd.installAdopted_ok (h : row.Accepted heir) (d : Shepherd) :
    ∃ b, d.installAdopted heir row = .ok ⟨b, Function.update d.restartDue row.id row.restartDue,
      d.nextActionStamp⟩ ∧ Actor.Installs row (d.actor.markRow row) b := by
  simp only [Shepherd.installAdopted, h.app]
  cases hpid : row.pid with
  | none => exact ⟨_, rfl, Actor.installIdle_installs h hpid _ _⟩
  | some pid =>
    simp only [h.adopt pid hpid]
    exact ⟨_, rfl, Actor.installLive_installs h hpid _ _⟩

end Install

/-! ## The whole flock -/

/-- The actor holds exactly the flock of `rows`, with what each row waits
on in flight. -/
structure Actor.Holds (rows : List CarriedSheep) (a : Actor) : Prop where
  slots : ∀ row ∈ rows, ∃ s, a.sheep[row.id]? = some s ∧ row.Becomes s ∧ row.Rearmed s a
  listed : ∀ (id : ℕ) (s : SheepSlot), a.sheep[id]? = some s → ∃ row ∈ rows, row.id = id
  timed : ∀ t ∈ a.timers, ∃ row ∈ rows, row.id = t.id
  disabled : ∀ n, n ∈ a.disabled ↔ ∃ row ∈ rows, row.disabled = some true ∧ row.app.name = n
  tasks : TasksOk a.sheep a.tasks a.nextTask
  timer_lt : ∀ t ∈ a.timers, t.serial < a.nextTimer
  timer_nodup : (a.timers.map RestartTimer.serial).Nodup

theorem CarriedSheep.Rearmed.mono {row other : CarriedSheep} {s : SheepSlot} {a b : Actor}
    (h : other.Rearmed s a) (hb : Actor.Installs row a b) (hne : other.id ≠ row.id) :
    other.Rearmed s b where
  timer := by
    intro hpid hst
    rw [← h.timer hpid hst]
    rcases hb.timers with ⟨e, -⟩ | ⟨delay, e, -⟩
    · simp [Actor.timersOf, e]
    · simp [Actor.timersOf, e, Ne.symm hne]
  ready := fun hpid hst hf => hb.readies _ (h.ready hpid hst hf)
  ladder := by
    intro m hm
    obtain ⟨task, hctl, hkill, hclaim⟩ := h.ladder m hm
    exact ⟨task, hctl, hb.trace _ hkill, hb.trace _ hclaim⟩

namespace Actor.Holds

variable {rows : List CarriedSheep} {row : CarriedSheep} {a b : Actor}

theorem mark (h : Holds rows a) (row : CarriedSheep) (n : String) :
    n ∈ (a.markRow row).disabled ↔
      ∃ r ∈ rows ++ [row], r.disabled = some true ∧ r.app.name = n := by
  unfold markRow
  split
  · next hd => simp [h.disabled, hd, or_and_right, exists_or, or_comm, eq_comm]
  · next hd => simp [h.disabled, hd, or_and_right, exists_or]

/-- One more row. -/
theorem install (h : Holds rows a) (hb : Installs row (a.markRow row) b)
    (hnew : ∀ r ∈ rows, r.id ≠ row.id) : Holds (rows ++ [row]) b := by
  have hmark := h.mark row
  rw [a.markRow_eq row] at hb
  obtain ⟨s, hsheep, hbec, hre, hlive, hidle⟩ := hb.slot
  have hfree : ∀ t ∈ a.timers, t.id ≠ row.id := by
    intro t ht
    obtain ⟨r, hr, e⟩ := h.timed t ht
    exact e ▸ hnew r hr
  have hvacant : ∀ t, a.sheep[row.id]? = some t → t.ctl = none := by
    intro t ht
    obtain ⟨r, hr, e⟩ := h.listed _ t ht
    exact absurd e (hnew r hr)
  refine ⟨fun r hr => ?_, fun id t ht => ?_, fun t ht => ?_, fun n => ?_, ?_, ?_, ?_⟩
  · rcases List.mem_append.1 hr with hr | hr
    · obtain ⟨u, hu, hubec, hure⟩ := h.slots r hr
      have hmarked : r.Rearmed u { a with disabled := (a.markRow row).disabled } :=
        ⟨hure.timer, hure.ready, hure.ladder⟩
      refine ⟨u, ?_, hubec, hmarked.mono hb (hnew r hr)⟩
      rw [hsheep, get_insert, if_neg (hnew r hr)]
      exact hu
    · obtain rfl := List.mem_singleton.1 hr
      exact ⟨s, by rw [hsheep, get_insert, if_pos rfl], hbec, hre hfree⟩
  · rw [hsheep, get_insert] at ht
    split at ht
    · next e => exact ⟨row, by simp, e.symm⟩
    · obtain ⟨r, hr, e⟩ := h.listed id t ht
      exact ⟨r, by simp [hr], e⟩
  · rcases hb.timers with ⟨e, -⟩ | ⟨delay, e, -⟩
    · obtain ⟨r, hr, hid⟩ := h.timed t (e ▸ ht)
      exact ⟨r, by simp [hr], hid⟩
    · rw [e] at ht
      rcases List.mem_cons.1 ht with rfl | ht
      · exact ⟨row, by simp, rfl⟩
      · obtain ⟨r, hr, hid⟩ := h.timed t ht
        exact ⟨r, by simp [hr], hid⟩
  · rw [hb.disabled]
    exact hmark n
  · cases hctl : s.ctl with
    | none =>
      obtain ⟨htasks, hnext⟩ := hidle hctl
      rw [hsheep, htasks, hnext]
      exact h.tasks.insert_idle hvacant hctl
    | some k =>
      obtain ⟨pid, rfl, hpid, htasks, hnext⟩ := hlive k hctl
      rw [hsheep, htasks, hnext]
      exact h.tasks.launch hvacant hctl (by rw [SheepSlot.name, hbec.spec]) .adopted
        (hbec.pid.trans hpid) _ _
  · intro t ht
    rcases hb.timers with ⟨e, hn⟩ | ⟨delay, e, hn⟩
    · rw [hn]
      exact h.timer_lt t (e ▸ ht)
    · rw [hn]
      rw [e] at ht
      rcases List.mem_cons.1 ht with rfl | ht
      · exact Nat.lt_succ_self _
      · exact (h.timer_lt t ht).trans (Nat.lt_succ_self _)
  · rcases hb.timers with ⟨e, -⟩ | ⟨delay, e, -⟩
    · rw [e]
      exact h.timer_nodup
    · rw [e, List.map_cons, List.nodup_cons]
      refine ⟨fun hmem => ?_, h.timer_nodup⟩
      obtain ⟨t, ht, hser⟩ := List.mem_map.1 hmem
      exact absurd (h.timer_lt t ht) (by simp [hser])

end Actor.Holds

/-- What is left alone while the rows are installed. -/
structure Actor.KeepsJobs (a b : Actor) : Prop where
  nextId : b.nextId = a.nextId
  nextDeadline : b.nextDeadline = a.nextDeadline
  reloads : b.reloads = a.reloads
  watchdogs : b.watchdogs = a.watchdogs
  verifies : b.verifies = a.verifies
  pending : b.pending = a.pending
  shuttingDown : b.shuttingDown = a.shuttingDown

/-- **The rows of an accepted flock are all installed.** -/
theorem Shepherd.installRows_ok {heir : Heir} (rows : List CarriedSheep)
    (haccepted : ∀ row ∈ rows, row.Accepted heir) :
    ∀ (done : List CarriedSheep) (d : Shepherd), d.actor.Holds done →
      ((done ++ rows).map CarriedSheep.id).Nodup →
      ∃ d', installRows heir rows d = .ok d' ∧ d'.actor.Holds (done ++ rows) ∧
        d.actor.KeepsJobs d'.actor ∧ d'.nextActionStamp = d.nextActionStamp := by
  induction rows with
  | nil =>
    intro done d hd _
    exact ⟨d, rfl, by simpa using hd, ⟨rfl, rfl, rfl, rfl, rfl, rfl, rfl⟩, rfl⟩
  | cons row rows ih =>
    intro done d hd hnodup
    obtain ⟨b, hok, hb⟩ := installAdopted_ok (haccepted row List.mem_cons_self) d
    have hnew : ∀ r ∈ done, r.id ≠ row.id := by
      intro r hr e
      rw [List.map_append, List.nodup_append] at hnodup
      exact hnodup.2.2 _ (List.mem_map_of_mem hr) _ (by simp) e
    obtain ⟨d', hrows, hholds, hkeeps, hstamp⟩ := ih (fun r hr => haccepted r (by simp [hr]))
      (done ++ [row]) ⟨b, _, d.nextActionStamp⟩ (hd.install hb hnew) (by simpa using hnodup)
    refine ⟨d', by rw [installRows, hok]; exact hrows, by simpa using hholds, ?_, hstamp⟩
    rw [d.actor.markRow_eq row] at hb
    obtain ⟨h1, h2, h3, h4, h5, h6, h7, -⟩ := hb.rest
    exact ⟨hkeeps.nextId.trans h1, hkeeps.nextDeadline.trans h2, hkeeps.reloads.trans h3,
      hkeeps.watchdogs.trans h4, hkeeps.verifies.trans h5, hkeeps.pending.trans h6,
      hkeeps.shuttingDown.trans h7⟩

/-! ## The reloads in flight -/

/-- Either half of a carried swap is registered. -/
def Actor.anchors (a : Actor) (carried : CarriedReload) : Bool :=
  (carried.swap.newId.any fun id => (a.sheep[id]?).isSome) ||
    (a.sheep[carried.swap.oldId]?).isSome

/-- The job of `carried` is in flight under a watchdog of its own, and its
probe with it when the swap was being verified. -/
structure Actor.Resumes (base a : Actor) (carried : CarriedReload) (stamp : ℕ) : Prop where
  job : a.reloads[carried.app]? = some ⟨carried.queue, carried.mode, carried.swap, stamp⟩
  watched : ⟨carried.app, stamp⟩ ∈ a.watchdogs
  probed : ∀ newId, carried.swap.phase = .verify → carried.swap.newId = some newId →
    base.postDrainProbe newId carried.mode = true → ⟨carried.app, newId⟩ ∈ a.verifies

/-- The carried jobs are in flight in an actor that had none, each under
the next stamp, but for those that name nothing it holds. -/
structure Actor.HoldsJobs (done : List CarriedReload) (base a : Actor) : Prop where
  same : a = { base with reloads := a.reloads, nextDeadline := a.nextDeadline,
                         watchdogs := a.watchdogs, verifies := a.verifies }
  jobs : ∀ c ∈ done, base.anchors c = true → ∃ stamp, base.Resumes a c stamp
  listed : ∀ (n : String) (job : ReloadJob), a.reloads[n]? = some job →
    ∃ c ∈ done, c.app = n ∧ base.anchors c = true
  counted : a.nextDeadline = base.nextDeadline + (done.filter base.anchors).length
  watchdogs : WatchdogsOk a.watchdogs a.nextDeadline

theorem anchor_cases (registered : ℕ → Bool) (swap : ReloadSwap) :
    let anchor := (swap.newId.filter registered).or
      (if registered swap.oldId then some swap.oldId else none)
    let anchors := swap.newId.any registered || registered swap.oldId
    (anchor = none ∧ anchors = false) ∨
      ∃ k, anchor = some k ∧ registered k = true ∧ anchors = true := by
  cases hold : registered swap.oldId <;> cases hn : swap.newId with
  | none => simp [hold]
  | some k => cases hk : registered k <;> simp [Option.filter, hk, hold]

/-- **`install_carried_reloads` on one job**: dropped, or restored under the
next stamp. -/
theorem Actor.installCarriedReload_cases (a : Actor) (c : CarriedReload) :
    (a.anchors c = false ∧ a.installCarriedReload c = a) ∨
    (a.anchors c = true ∧ ∃ verifies, a.installCarriedReload c = { a with
        reloads := a.reloads.insert c.app ⟨c.queue, c.mode, c.swap, a.nextDeadline⟩
        nextDeadline := a.nextDeadline + 1
        watchdogs := ⟨c.app, a.nextDeadline⟩ :: a.watchdogs
        verifies := verifies } ∧ (∀ v ∈ a.verifies, v ∈ verifies) ∧
      ∀ newId, c.swap.phase = .verify → c.swap.newId = some newId →
        a.postDrainProbe newId c.mode = true → ⟨c.app, newId⟩ ∈ verifies) := by
  rcases anchor_cases (fun id => (a.sheep[id]?).isSome) c.swap with ⟨hnone, hno⟩ | ⟨k, hk, hreg, hyes⟩
  · exact Or.inl ⟨hno, by simp only [Actor.installCarriedReload, hnone]⟩
  · refine Or.inr ⟨hyes, ?_⟩
    obtain ⟨s, hs⟩ := Option.isSome_iff_exists.1 hreg
    have harm : (a.putJob c.app ⟨c.queue, c.mode, c.swap, 0⟩).armReloadDeadline c.app k = { a with
        reloads := a.reloads.insert c.app ⟨c.queue, c.mode, c.swap, a.nextDeadline⟩
        nextDeadline := a.nextDeadline + 1
        watchdogs := ⟨c.app, a.nextDeadline⟩ :: a.watchdogs } := by
      simp [Actor.putJob, Actor.armReloadDeadline, hs]
    simp only [Actor.installCarriedReload, hk, harm]
    split
    · next newId hphase hnew =>
      split
      · refine ⟨_, rfl, fun _ hv => List.mem_cons_of_mem _ hv, fun id _ hid _ => ?_⟩
        rw [hnew] at hid
        obtain rfl := Option.some.inj hid
        exact List.mem_cons_self
      · next hno =>
        refine ⟨_, rfl, fun _ hv => hv, fun id _ hid hprobe => ?_⟩
        rw [hnew] at hid
        obtain rfl := Option.some.inj hid
        exact absurd hprobe hno
    · next hne =>
      exact ⟨_, rfl, fun _ hv => hv, fun id hphase hid _ => absurd hid (hne id hphase)⟩
namespace Actor.HoldsJobs

variable {done : List CarriedReload} {base a : Actor}

theorem nil (hreloads : ∀ n : String, base.reloads[n]? = none) (hwatch : base.watchdogs = []) :
    HoldsJobs [] base base where
  same := rfl
  jobs := by simp
  listed := by simp [hreloads]
  counted := by simp
  watchdogs := ⟨by simp [hwatch], by simp [hwatch]⟩

theorem sheep_eq (h : HoldsJobs done base a) : a.sheep = base.sheep := by
  rw [h.same]

theorem anchors_eq (h : HoldsJobs done base a) (c : CarriedReload) :
    a.anchors c = base.anchors c := by
  unfold anchors
  rw [h.sheep_eq]

/-- One more job, of an app that has none yet. -/
theorem install (h : HoldsJobs done base a) {c : CarriedReload} (hnew : ∀ d ∈ done, d.app ≠ c.app) :
    HoldsJobs (done ++ [c]) base (a.installCarriedReload c) := by
  rcases a.installCarriedReload_cases c with ⟨hno, he⟩ | ⟨hyes, verifies, he, hverifies, hprobe⟩
  · rw [h.anchors_eq] at hno
    rw [he]
    refine ⟨h.same, fun d hd hanchor => ?_, fun n job hj => ?_, ?_, h.watchdogs⟩
    · rcases List.mem_append.1 hd with hd | hd
      · exact h.jobs d hd hanchor
      · rw [List.mem_singleton.1 hd, hno] at hanchor
        cases hanchor
    · obtain ⟨d, hd, hdn⟩ := h.listed n job hj
      exact ⟨d, by simp [hd], hdn⟩
    · simp [h.counted, hno]
  · rw [h.anchors_eq] at hyes
    rw [he]
    refine ⟨?_, fun d hd hanchor => ?_, fun n job hj => ?_, ?_, h.watchdogs.cons c.app⟩
    · conv_lhs => rw [h.same]
    · rcases List.mem_append.1 hd with hd | hd
      · obtain ⟨stamp, hres⟩ := h.jobs d hd hanchor
        refine ⟨stamp, ?_, List.mem_cons_of_mem _ hres.watched,
          fun id hph hid hp => hverifies _ (hres.probed id hph hid hp)⟩
        rw [get_insert, if_neg (hnew d hd)]
        exact hres.job
      · obtain rfl := List.mem_singleton.1 hd
        refine ⟨a.nextDeadline, by simp, List.mem_cons_self, fun id hph hid hp => hprobe id hph hid ?_⟩
        unfold postDrainProbe at hp ⊢
        rw [h.sheep_eq]
        exact hp
    · rw [get_insert] at hj
      split at hj
      · next e => exact ⟨c, by simp, e.symm, hyes⟩
      · obtain ⟨d, hd, hdn⟩ := h.listed n job hj
        exact ⟨d, by simp [hd], hdn⟩
    · simp [h.counted, hyes, Nat.add_assoc]

/-- **The carried reloads are all restored**, but for those that name
nothing the actor holds. -/
theorem foldl (carried : List CarriedReload) : ∀ (done : List CarriedReload) (a : Actor),
    HoldsJobs done base a → ((done ++ carried).map CarriedReload.app).Nodup →
      HoldsJobs (done ++ carried) base (carried.foldl installCarriedReload a) := by
  induction carried with
  | nil =>
    intro done a h _
    simpa using h
  | cons c carried ih =>
    intro done a h hnodup
    have hnew : ∀ d ∈ done, d.app ≠ c.app := by
      intro d hd e
      rw [List.map_append, List.nodup_append] at hnodup
      exact hnodup.2.2 _ (List.mem_map_of_mem hd) _ (by simp) e
    have hrest := ih (done ++ [c]) (a.installCarriedReload c) (h.install hnew)
      (by simpa using hnodup)
    simpa using hrest

end Actor.HoldsJobs

end Supervisor

end Shep
