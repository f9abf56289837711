import Shep.Supervisor.Helpers.Adopting
import Shep.Supervisor.Helpers.Play

/-!
# Supervisor — a flock handed over

`Restores` is what a successor owes the shepherd it replaces: every slot
the blob carries as it was, the marks, the jobs and the counters, and every
timer, wait, ladder, watchdog and probe that died with the old image set
going again. **`handover_restores`** holds of every reachable state, in
which a starting slot has a process and a parked config keeps its flag.
The watchdog counter does not come back as it was: each restored job takes
a stamp off it, and a job that names nothing carried is dropped.
-/

namespace Shep

namespace Supervisor

open Shep.Table

/-- The successor's slot `s'` agrees with the predecessor's `s` on all that
is carried. A marker is carried beside a process only. -/
structure SheepSlot.CarriedAs (s s' : SheepSlot) : Prop where
  spec : s'.entry.spec = s.entry.spec
  pending : s'.entry.pending = s.entry.pending
  reidentifies : s'.entry.pendingReidentifies = s.entry.pendingReidentifies
  inst : s'.entry.inst = s.entry.inst
  pid : s'.entry.pid = s.entry.pid
  status : s'.entry.status = s.entry.status
  epoch : s'.epoch = s.epoch
  restarts : s'.entry.restarts = s.entry.restarts
  pendingDelete : s'.pendingDelete = s.pendingDelete
  manual : s.ctl.isSome = true → s'.manual = s.manual
  reload : s'.entry.reload = s.entry.reload
  readyFailed : s'.readyFailed = s.readyFailed
  dog : s'.entry.dog = s.entry.dog
  credentials : s'.entry.credentials = s.entry.credentials
  lastExit : s'.entry.lastExit = s.entry.lastExit
  spawnFailure : s'.entry.spawnFailure = s.entry.spawnFailure
  ctl : s'.ctl.isSome = s.ctl.isSome

namespace Actor

/-- `id` is a slot the blob carries: registered, and not a parked dog. -/
def Carries (a : Actor) (id : ℕ) (s : SheepSlot) : Prop :=
  a.sheep[id]? = some s ∧ a.isParkedDog s = false

/-- Whether either half of a job's swap is carried. -/
def carriesHalf (a : Actor) (job : ReloadJob) : Bool :=
  (job.swap.newId.any fun id => (a.sheep[id]?).any fun s => !a.isParkedDog s) ||
    (a.sheep[job.swap.oldId]?).any fun s => !a.isParkedDog s

end Actor

/-- **What the successor `d` restores of the state `a`.** -/
structure Restores (a : Actor) (nextActionStamp : ℕ) (d : Shepherd) : Prop where
  slots : ∀ id s, a.Carries id s → ∃ s', d.actor.sheep[id]? = some s' ∧ s.CarriedAs s'
  listed : ∀ (id : ℕ) (s' : SheepSlot), d.actor.sheep[id]? = some s' → ∃ s, a.Carries id s
  disabled : ∀ n, n ∈ d.actor.disabled ↔ n ∈ a.disabled ∧ ∃ id s, a.Carries id s ∧ s.name = n
  jobs : ∀ (n : String) (job : ReloadJob), a.reloads[n]? = some job → a.carriesHalf job = true →
    ∃ job' : ReloadJob, d.actor.reloads[n]? = some job' ∧ job'.queue = job.queue ∧
      job'.mode = job.mode ∧ job'.swap = job.swap
  restored : ∀ (n : String) (job' : ReloadJob), d.actor.reloads[n]? = some job' →
    ∃ job : ReloadJob, a.reloads[n]? = some job ∧ a.carriesHalf job = true
  nextId : d.actor.nextId = a.nextId
  nextDeadline : d.actor.nextDeadline =
    a.nextDeadline + (a.reloads.toList.filter fun entry => a.carriesHalf entry.2).length
  stamps : d.nextActionStamp = nextActionStamp
  timers : ∀ (id : ℕ) (s' : SheepSlot), d.actor.sheep[id]? = some s' →
    s'.entry.status = .waitingRestart → (d.actor.timersOf id s'.epoch).length = 1
  readies : ∀ (id : ℕ) (s' : SheepSlot), d.actor.sheep[id]? = some s' →
    s'.entry.status = .starting → s'.readyFailed = false →
    ∃ manually, ⟨id, s'.epoch, manually⟩ ∈ d.actor.readies
  ladders : ∀ (id : ℕ) (s' : SheepSlot) (m : PendingManual), d.actor.sheep[id]? = some s' →
    s'.manual = some m → ∃ task grace cap, s'.ctl = some task ∧
      .killed task grace ∈ d.actor.trace ∧ .claimed id m cap ∈ d.actor.trace
  watchdogs : ∀ (n : String) (job' : ReloadJob), d.actor.reloads[n]? = some job' →
    ⟨n, job'.deadline⟩ ∈ d.actor.watchdogs
  probes : ∀ (n : String) (job' : ReloadJob) (newId : ℕ), d.actor.reloads[n]? = some job' →
    job'.swap.phase = .verify → job'.swap.newId = some newId →
    d.actor.postDrainProbe newId job'.mode = true → ⟨n, newId⟩ ∈ d.actor.verifies

namespace Shepherd

variable {d : Shepherd} {row : CarriedSheep}

theorem mem_snapshot : row ∈ d.handleHandoverSnapshot.sheep ↔
    ∃ id s, d.actor.Carries id s ∧ d.describe id s = row := by
  simp only [handleHandoverSnapshot, List.mem_map, List.mem_filter, Prod.exists, Actor.Carries,
    Bool.not_eq_true', mem_toList]

theorem snapshot_nodup (d : Shepherd) :
    (d.handleHandoverSnapshot.sheep.map CarriedSheep.id).Nodup := by
  have hids : d.handleHandoverSnapshot.sheep.map CarriedSheep.id =
      (d.actor.sheep.toList.filter fun entry => !d.actor.isParkedDog entry.2).map Prod.fst := by
    simp [handleHandoverSnapshot, describe, CarriedSheep.withDisabled, CarriedSheep.fromEntry,
      Function.comp_def]
  rw [hids]
  exact (List.filter_sublist.map Prod.fst).nodup (nodup_keys _)

theorem snapshot_reloads_nodup (d : Shepherd) :
    (d.handleHandoverSnapshot.reloads.map CarriedReload.app).Nodup := by
  have happs : d.handleHandoverSnapshot.reloads.map CarriedReload.app =
      d.actor.reloads.toList.map Prod.fst := by
    simp [handleHandoverSnapshot, Function.comp_def]
  rw [happs]
  exact nodup_keys _

/-- A slot described and installed is the slot it was. -/
theorem describe_carriedAs {id : ℕ} {s s' : SheepSlot} (hs : s.WellFormed)
    (h : (d.describe id s).Becomes s') : s.CarriedAs s' where
  spec := h.spec
  pending := h.pending
  reidentifies := by
    rw [h.reidentifies]
    cases hp : s.entry.pending with
    | none => simp [describe, CarriedSheep.withDisabled, CarriedSheep.fromEntry, hp, hs.unparked hp]
    | some p => simp [describe, CarriedSheep.withDisabled, CarriedSheep.fromEntry, hp]
  inst := h.inst
  pid := h.pid
  status := h.status
  epoch := h.epoch
  restarts := h.restarts
  pendingDelete := h.pendingDelete
  manual := by
    intro hctl
    have hpid : (d.describe id s).pid.isSome = true := hs.pid.trans hctl
    rw [h.manual, if_pos hpid]
    rfl
  reload := h.reload
  readyFailed := h.readyFailed
  dog := h.dog
  credentials := h.credentials
  lastExit := h.lastExit
  spawnFailure := h.spawnFailure
  ctl := h.ctl.trans hs.pid

/-- **An accepted blob is adopted whole**: the flock of its rows, and on it
the jobs it carries. -/
theorem spawnAdopted_ok {heir : Heir} (d : Shepherd) (dogBinaries : List (String × String))
    (haccepted : ∀ row ∈ d.handleHandoverSnapshot.sheep, row.Accepted heir) :
    ∃ (base : Actor) (d' : Shepherd), spawnAdopted heir dogBinaries d.handleHandoverSnapshot = .ok d' ∧
      base.Holds d.handleHandoverSnapshot.sheep ∧
      base.HoldsJobs d.handleHandoverSnapshot.reloads d'.actor ∧
      base.nextId = d.actor.nextId ∧ base.nextDeadline = d.actor.nextDeadline ∧
      d'.nextActionStamp = d.nextActionStamp := by
  have hempty : (inherit dogBinaries d.handleHandoverSnapshot.counters).actor.Holds [] :=
    { slots := by simp
      listed := by simp [inherit, Actor.init]
      timed := by simp [inherit, Actor.init]
      disabled := by simp [inherit, Actor.init]
      tasks := ⟨by simp [inherit, Actor.init], by simp [inherit, Actor.init],
        by simp [inherit, Actor.init], by simp [inherit, Actor.init]⟩
      timer_lt := by simp [inherit, Actor.init]
      timer_nodup := by simp [inherit, Actor.init] }
  obtain ⟨d₁, hrows, hholds, hkeeps, hstamp⟩ := installRows_ok d.handleHandoverSnapshot.sheep
    haccepted [] _ hempty d.snapshot_nodup
  have hjobs := Actor.HoldsJobs.foldl d.handleHandoverSnapshot.reloads [] d₁.actor
    (.nil (by simp [hkeeps.reloads, inherit, Actor.init])
      (by simp [hkeeps.watchdogs, inherit, Actor.init])) d.snapshot_reloads_nodup
  refine ⟨d₁.actor, { d₁ with
    actor := d.handleHandoverSnapshot.reloads.foldl Actor.installCarriedReload d₁.actor },
    by rw [spawnAdopted, hrows], hholds, hjobs, hkeeps.nextId, hkeeps.nextDeadline, hstamp⟩

end Shepherd

section Restores

variable {d d' : Shepherd} {base : Actor}

theorem Actor.Holds.of_snapshot (h : base.Holds d.handleHandoverSnapshot.sheep) {id : ℕ}
    {s' : SheepSlot} (hs' : base.sheep[id]? = some s') :
    ∃ s, d.actor.Carries id s ∧ (d.describe id s).Becomes s' ∧ (d.describe id s).Rearmed s' base := by
  obtain ⟨row, hrow, rfl⟩ := h.listed id s' hs'
  obtain ⟨u, hu, hbec, hre⟩ := h.slots row hrow
  obtain ⟨id, s, hs, rfl⟩ := Shepherd.mem_snapshot.1 hrow
  obtain rfl : s' = u := Option.some.inj (hs'.symm.trans hu)
  exact ⟨s, hs, hbec, hre⟩

/-- A carried job is restored when one of its halves is carried. -/
theorem Actor.Holds.anchors_eq (h : base.Holds d.handleHandoverSnapshot.sheep) (n : String)
    (job : ReloadJob) :
    base.anchors ⟨n, job.queue, job.mode, job.swap⟩ = d.actor.carriesHalf job := by
  have hreg : ∀ id : ℕ, (base.sheep[id]?).isSome =
      (d.actor.sheep[id]?).any fun s => !d.actor.isParkedDog s := by
    intro id
    rw [Bool.eq_iff_iff]
    constructor
    · intro hsome
      obtain ⟨s', hs'⟩ := Option.isSome_iff_exists.1 hsome
      obtain ⟨s, ⟨hs, hpark⟩, -⟩ := h.of_snapshot hs'
      simp [hs, hpark]
    · intro hany
      cases hs : d.actor.sheep[id]? with
      | none => simp [hs] at hany
      | some s =>
        have hpark : d.actor.isParkedDog s = false := by simpa [hs] using hany
        obtain ⟨s', hs', -⟩ := h.slots (d.describe id s) (Shepherd.mem_snapshot.2 ⟨id, s, ⟨hs, hpark⟩, rfl⟩)
        exact Option.isSome_iff_exists.2 ⟨s', hs'⟩
  simp only [Actor.anchors, Actor.carriesHalf, hreg]

/-- The flock and the jobs an accepted blob leaves restore the state it
was taken from. -/
theorem restores_of_holds (hinv : Inv .none d.actor)
    (hwaits : Each (SheepSlot.Waits .none) d.actor.sheep)
    (hholds : base.Holds d.handleHandoverSnapshot.sheep)
    (hjobs : base.HoldsJobs d.handleHandoverSnapshot.reloads d'.actor)
    (hid : base.nextId = d.actor.nextId) (hdeadline : base.nextDeadline = d.actor.nextDeadline)
    (hstamp : d'.nextActionStamp = d.nextActionStamp) :
    Restores d.actor d.nextActionStamp d' := by
  have hsheep := hjobs.sheep_eq
  have hslot : ∀ (id : ℕ) (s' : SheepSlot), d'.actor.sheep[id]? = some s' → ∃ s,
      d.actor.Carries id s ∧ (d.describe id s).Becomes s' ∧
        (d.describe id s).Rearmed s' base := by
    intro id s' hs'
    rw [hsheep] at hs'
    exact hholds.of_snapshot hs'
  -- what the rows wait on is not touched while the jobs are restored
  have hsame : d'.actor.timers = base.timers ∧ d'.actor.readies = base.readies ∧
      d'.actor.trace = base.trace ∧ d'.actor.disabled = base.disabled ∧
      d'.actor.nextId = base.nextId := by
    rw [hjobs.same]
    exact ⟨rfl, rfl, rfl, rfl, rfl⟩
  obtain ⟨htimers, hreadies, htrace, hdisabled, hnext⟩ := hsame
  have hcarried : ∀ (n : String) (job : ReloadJob), d.actor.reloads[n]? = some job →
      (⟨n, job.queue, job.mode, job.swap⟩ : CarriedReload) ∈ d.handleHandoverSnapshot.reloads :=
    fun n job hj => List.mem_map.2 ⟨(n, job), mem_toList.2 hj, rfl⟩
  have hrestored : ∀ (n : String) (job' : ReloadJob), d'.actor.reloads[n]? = some job' →
      ∃ (job : ReloadJob) (stamp : ℕ), d.actor.reloads[n]? = some job ∧
        d.actor.carriesHalf job = true ∧ job' = ⟨job.queue, job.mode, job.swap, stamp⟩ ∧
        base.Resumes d'.actor ⟨n, job.queue, job.mode, job.swap⟩ stamp := by
    intro n job' hj'
    obtain ⟨c, hc, rfl, hanchor⟩ := hjobs.listed n job' hj'
    obtain ⟨⟨n, job⟩, hmem, rfl⟩ := List.mem_map.1 hc
    obtain ⟨stamp, hres⟩ := hjobs.jobs _ hc hanchor
    exact ⟨job, stamp, mem_toList.1 hmem, hholds.anchors_eq n job ▸ hanchor,
      Option.some.inj (hj'.symm.trans hres.job), hres⟩
  constructor
  case slots =>
    intro id s hs
    obtain ⟨s', hs', hbec, -⟩ := hholds.slots (d.describe id s)
      (Shepherd.mem_snapshot.2 ⟨id, s, hs, rfl⟩)
    exact ⟨s', by rw [hsheep]; exact hs', Shepherd.describe_carriedAs (hinv.wellFormed hs.1) hbec⟩
  case listed =>
    intro id s' hs'
    obtain ⟨s, hs, -⟩ := hslot id s' hs'
    exact ⟨s, hs⟩
  case disabled =>
    intro n
    rw [hdisabled, hholds.disabled]
    constructor
    · rintro ⟨row, hrow, hd, rfl⟩
      obtain ⟨id, s, hs, rfl⟩ := Shepherd.mem_snapshot.1 hrow
      have hmark : d.actor.isDisabledId id = true := Option.some.inj hd
      rw [Actor.isDisabledId, hs.1] at hmark
      exact ⟨List.contains_iff_mem.1 hmark, id, s, hs, rfl⟩
    · rintro ⟨hn, id, s, hs, rfl⟩
      refine ⟨_, Shepherd.mem_snapshot.2 ⟨id, s, hs, rfl⟩, ?_, rfl⟩
      have hmark : d.actor.isDisabledId id = true := by
        rw [Actor.isDisabledId, hs.1]
        simpa [Actor.isDisabled] using hn
      exact congrArg some hmark
  case jobs =>
    intro n job hj hhalf
    obtain ⟨stamp, hres⟩ := hjobs.jobs _ (hcarried n job hj)
      (by rw [hholds.anchors_eq]; exact hhalf)
    exact ⟨_, hres.job, rfl, rfl, rfl⟩
  case restored =>
    intro n job' hj'
    obtain ⟨job, -, hj, hhalf, -⟩ := hrestored n job' hj'
    exact ⟨job, hj, hhalf⟩
  case nextId => rw [hnext, hid]
  case nextDeadline =>
    rw [hjobs.counted, hdeadline]
    have hcount : d.handleHandoverSnapshot.reloads.filter base.anchors =
        (d.actor.reloads.toList.filter fun entry => d.actor.carriesHalf entry.2).map
          fun entry => ⟨entry.1, entry.2.queue, entry.2.mode, entry.2.swap⟩ := by
      rw [Shepherd.handleHandoverSnapshot, List.filter_map]
      congr 2
      funext entry
      exact hholds.anchors_eq entry.1 entry.2
    rw [hcount, List.length_map]
  case stamps => exact hstamp
  case timers =>
    intro id s' hs' hst
    obtain ⟨s, hs, hbec, hre⟩ := hslot id s' hs'
    have hwf := hinv.wellFormed hs.1
    have hstatus : s.entry.status = .waitingRestart := hbec.status.symm.trans hst
    have hidle : s.ctl = none := by
      cases hctl : s.ctl with
      | none => rfl
      | some k => simpa [hstatus] using hwf.status (by simp [hctl])
    rw [Actor.timersOf, htimers, hbec.epoch]
    exact hre.timer (hwf.idle_pid hidle) hstatus
  case readies =>
    intro id s' hs' hst hready
    obtain ⟨s, hs, hbec, hre⟩ := hslot id s' hs'
    have hstatus : s.entry.status = .starting := hbec.status.symm.trans hst
    have hfailed : s.readyFailed = false := hbec.readyFailed.symm.trans hready
    have hlive : s.ctl.isSome = true := by
      rcases hwaits id s hs.1 (Hole.none_spares id) hstatus with h | h
      · exact h
      · rw [hfailed] at h
        cases h
    rw [hreadies, hbec.epoch]
    exact ⟨_, hre.ready ((hinv.wellFormed hs.1).pid.trans hlive) hstatus hfailed⟩
  case ladders =>
    intro id s' m hs' hm
    obtain ⟨s, hs, -, hre⟩ := hslot id s' hs'
    obtain ⟨task, hctl, hkill, hclaim⟩ := hre.ladder m hm
    exact ⟨task, _, _, hctl, by rw [htrace]; exact hkill, by rw [htrace]; exact hclaim⟩
  case watchdogs =>
    intro n job' hj'
    obtain ⟨job, stamp, -, -, rfl, hres⟩ := hrestored n job' hj'
    exact hres.watched
  case probes =>
    intro n job' newId hj' hphase hnew hprobe
    obtain ⟨job, stamp, -, -, rfl, hres⟩ := hrestored n job' hj'
    refine hres.probed newId hphase hnew ?_
    unfold Actor.postDrainProbe at hprobe ⊢
    rw [hsheep] at hprobe
    exact hprobe

end Restores

/-- **A handover restores every reachable state.** The snapshot of a state
reached by any messages, installed by a successor that accepts what it
carries, leaves the flock, the marks and the jobs as they were, and every
obligation that died with the old image in flight again. -/
theorem handover_restores {dogBinaries dogBinaries' : List (String × String)}
    {h : List (Actor × World × Msg)} {a : Actor} (hr : Run Actor.Step (.init dogBinaries) h a)
    (restartDue : ℕ → Option ℕ) (nextActionStamp : ℕ) {heir : Heir}
    (haccepted : ∀ row ∈ (Shepherd.mk a restartDue nextActionStamp).handleHandoverSnapshot.sheep,
      row.Accepted heir) :
    ∃ d, Shepherd.spawnAdopted heir dogBinaries'
        (Shepherd.mk a restartDue nextActionStamp).handleHandoverSnapshot = .ok d ∧
      Restores a nextActionStamp d := by
  obtain ⟨base, d, hok, hholds, hjobs, hid, hdeadline, hstamp⟩ :=
    Shepherd.spawnAdopted_ok ⟨a, restartDue, nextActionStamp⟩ dogBinaries' haccepted
  exact ⟨d, hok, restores_of_holds (Actor.reachable_inv hr) (waits_run hr) hholds hjobs hid hdeadline
    hstamp⟩

/-- A successor that takes every config and every process it is given. -/
def plainHeir : Heir :=
  { plain with adopt := fun _ pid => .ok pid, startedAtOf := fun _ => 0, wall := 0 }

theorem plainHeir_accepts (row : CarriedSheep) : row.Accepted plainHeir :=
  ⟨rfl, fun _ _ => rfl, fun _ _ => rfl⟩

theorem handover_restores_overlapping : ∃ d, Shepherd.spawnAdopted plainHeir []
      (Shepherd.mk ((Actor.init []).play overlapping) (fun _ => none) 0).handleHandoverSnapshot =
        .ok d ∧ Restores ((Actor.init []).play overlapping) 0 d := by
  have hplay : (Actor.init []).Playable overlapping := by decide +kernel
  exact handover_restores hplay.run (fun _ => none) 0 fun row _ => plainHeir_accepts row

/-- The replacement of a swap being verified is stopped and deleted: its
job names nothing registered. -/
def orphaned : List (World × Msg) :=
  reprobed ++ [(plain, .command (.stop .all)), reprobedExit, (plain, .command (.delete .all))]

/-- A reload in flight moves the successor's watchdog counter on, and a
reload that names nothing carried does not come back. -/
theorem handover_restamps :
    (∃ (h : List (Actor × World × Msg)) (a : Actor) (d : Shepherd),
      Run Actor.Step (.init []) h a ∧ Shepherd.spawnAdopted plainHeir []
        (Shepherd.mk a (fun _ => none) 0).handleHandoverSnapshot = .ok d ∧
      d.actor.nextDeadline ≠ a.nextDeadline) ∧
    ∃ (h : List (Actor × World × Msg)) (a : Actor) (d : Shepherd) (job : ReloadJob),
      Run Actor.Step (.init []) h a ∧ Shepherd.spawnAdopted plainHeir []
        (Shepherd.mk a (fun _ => none) 0).handleHandoverSnapshot = .ok d ∧
      a.reloads["web"]? = some job ∧ d.actor.reloads["web"]? = none := by
  have hadopted : ∀ events, (Actor.init []).Playable events → ∃ d : Shepherd,
      Shepherd.spawnAdopted plainHeir []
        (Shepherd.mk ((Actor.init []).play events) (fun _ => none) 0).handleHandoverSnapshot =
          .ok d ∧ Restores ((Actor.init []).play events) 0 d := by
    intro events hplay
    obtain ⟨base, d, hok, hholds, hjobs, hid, hdeadline, hstamp⟩ := Shepherd.spawnAdopted_ok
      ⟨(Actor.init []).play events, fun _ => none, 0⟩ [] fun row _ => plainHeir_accepts row
    exact ⟨d, hok, restores_of_holds (Actor.reachable_inv hplay.run) (waits_run hplay.run) hholds
      hjobs hid hdeadline hstamp⟩
  constructor
  · have hplay : (Actor.init []).Playable overlapping := by decide +kernel
    obtain ⟨d, hok, hrestores⟩ := hadopted _ hplay
    refine ⟨_, _, d, hplay.run, hok, ?_⟩
    have hone : (((Actor.init []).play overlapping).reloads.toList.filter fun entry =>
        ((Actor.init []).play overlapping).carriesHalf entry.2).length = 1 := by decide +kernel
    rw [hrestores.nextDeadline, hone]
    exact (Nat.lt_succ_self _).ne'
  · have hplay : (Actor.init []).Playable orphaned := by decide +kernel
    obtain ⟨d, hok, hrestores⟩ := hadopted _ hplay
    have hjob : ((Actor.init []).play orphaned).reloads["web"]? =
        some ⟨[], .overlap, ⟨0, some 1, .verify⟩, 1⟩ := by decide +kernel
    refine ⟨_, _, d, _, hplay.run, hok, hjob, ?_⟩
    cases hj : d.actor.reloads["web"]? with
    | none => rfl
    | some job' =>
      obtain ⟨job, hj', hhalf⟩ := hrestores.restored "web" job' hj
      obtain rfl := Option.some.inj (hjob.symm.trans hj')
      have hno : ((Actor.init []).play orphaned).carriesHalf
          ⟨[], .overlap, ⟨0, some 1, .verify⟩, 1⟩ = false := by decide +kernel
      rw [hno] at hhalf
      cases hhalf

end Supervisor

end Shep
