import Shep.Supervisor.Helpers.Inv

/-!
# Supervisor — every move keeps the invariant

One lemma per kind of move that does more than rewrite a slot, then
`Move.inv` for them all and `Moves.inv` for a sequence.
-/

namespace Shep

namespace Supervisor

/-! ## What `resolve_pending` leaves -/

namespace Actor

/-- The replies waiting on `id` and nothing else, with its row. -/
def readyReplies (id : ℕ) (info : ProcessInfo) (a : Actor) : List PendingReply :=
  (a.pending.map (PendingReply.settle id info)).filter fun p => p.remaining.isEmpty

/-- What sending a list of replies records, newest first. -/
def repliedWith (ready : List PendingReply) : List Effect :=
  (ready.map fun p => Effect.replied p.tag (p.kind.payload (.ok (sortFlock p.results)))).reverse

theorem foldl_sendReply (ready : List PendingReply) (a : Actor) :
    ready.foldl (fun a p => a.sendReply p.tag (p.kind.payload (.ok (sortFlock p.results)))) a =
      { a with trace := repliedWith ready ++ a.trace } := by
  induction ready generalizing a with
  | nil => rfl
  | cons p ready ih =>
    rw [List.foldl_cons, ih]
    simp [repliedWith, sendReply]

/-- `resolve_pending` writes the parked replies, the trace and the flag
that breaks the loop. -/
theorem resolvePending_eq (id : ℕ) (info : ProcessInfo) (a : Actor) :
    a.resolvePending id info = { a with
      pending := (a.pending.map (PendingReply.settle id info)).filter fun p => !p.remaining.isEmpty
      done := a.done || (a.readyReplies id info).any fun p => p.kind == .shutdown
      trace := repliedWith (a.readyReplies id info) ++ a.trace } := by
  simp only [resolvePending, foldl_sendReply]
  rfl

end Actor

namespace PendingReply

theorem settle_tag (id : ℕ) (info : ProcessInfo) (p : PendingReply) :
    (p.settle id info).tag = p.tag := by
  unfold settle
  split <;> rfl

theorem settle_kind (id : ℕ) (info : ProcessInfo) (p : PendingReply) :
    (p.settle id info).kind = p.kind := by
  unfold settle
  split <;> rfl

theorem mem_settle_remaining {id j : ℕ} {info : ProcessInfo} {p : PendingReply} :
    j ∈ (p.settle id info).remaining ↔ j ∈ p.remaining ∧ j ≠ id := by
  unfold settle
  split
  · simp
  · next hid =>
    have hid : id ∉ p.remaining := by simpa using hid
    constructor
    · intro hj
      exact ⟨hj, fun e => hid (e ▸ hj)⟩
    · exact And.left

end PendingReply

/-- Settling an exit takes its id out of every parked reply, and keeps the
ones still waiting. -/
theorem RepliesOk.resolve {id : ℕ} {taken : SheepSlot} {sheep : Std.ExtTreeMap ℕ SheepSlot}
    {pending : List PendingReply} {k : ℕ} (h : RepliesOk (.exiting id taken) sheep pending k)
    (info : ProcessInfo) :
    RepliesOk .none sheep
      ((pending.map (PendingReply.settle id info)).filter fun p => !p.remaining.isEmpty) k where
  waiting := by
    intro p hp
    rw [List.mem_filter, List.mem_map] at hp
    obtain ⟨⟨p, hp, rfl⟩, hne⟩ := hp
    refine ⟨by simpa using hne, fun j hj => ?_⟩
    rw [PendingReply.mem_settle_remaining] at hj
    rcases (h.waiting p hp).2 j hj.1 with hlive | ⟨taken, hx⟩
    · exact Or.inl hlive
    · simp only [Hole.exiting.injEq] at hx
      exact absurd hx.1.symm hj.2
  lt := by
    intro p hp
    rw [List.mem_filter, List.mem_map] at hp
    obtain ⟨⟨p, hp, rfl⟩, -⟩ := hp
    rw [PendingReply.settle_tag]
    exact h.lt p hp
  nodup := by
    refine List.Nodup.sublist (List.Sublist.map _ List.filter_sublist) ?_
    rw [List.map_map]
    have htag : PendingReply.tag ∘ PendingReply.settle id info = PendingReply.tag :=
      funext fun p => PendingReply.settle_tag id info p
    rw [htag]
    exact h.nodup

/-! ## Entering a slot -/

namespace Inv

variable {c : Turn} {x : Hole} {a : Actor} {id oldId : ℕ} {s s' taken : SheepSlot} {n : String}
variable {job : ReloadJob} {queue : List ℕ}

theorem not_named_fresh (h : Inv x a) (hj : a.reloads[n]? = some job) :
    ¬ (job.swap.oldId = a.nextId ∨ job.swap.newId = some a.nextId ∨ a.nextId ∈ job.queue) := by
  have hjob := h.jobs n job hj
  rintro (e | e | e)
  · exact absurd hjob.old_lt (by rw [e]; exact lt_irrefl _)
  · exact absurd (hjob.new_lt _ e) (lt_irrefl _)
  · exact absurd (hjob.queue_lt _ e) (lt_irrefl _)

theorem name_of_named (h : Inv x a) (hs : a.sheep[id]? = some s) (hj : a.reloads[n]? = some job)
    (hid : job.swap.oldId = id ∨ job.swap.newId = some id ∨ id ∈ job.queue) : s.name = n := by
  have hjob := h.jobs n job hj
  rcases hid with rfl | e | e
  · exact hjob.old_name s hs
  · exact hjob.new_name id s e hs
  · exact hjob.queue_name id e s hs

theorem idle_fresh (h : Inv x a) : ∀ s, a.sheep[a.nextId]? = some s → s.ctl = none := by
  intro s hs
  rw [h.fresh_id] at hs
  cases hs

theorem idle_of (hs : a.sheep[id]? = some s) (hctl : s.ctl = none) :
    ∀ t, a.sheep[id]? = some t → t.ctl = none := by
  intro t ht
  rw [hs] at ht
  exact Option.some.inj ht ▸ hctl

theorem register (h : Inv x a) (hs : s.Fresh none) :
    Inv x ({ a with nextId := a.nextId + 1 }.setSlot a.nextId s) where
  flock := (h.flock.mono (Nat.le_succ _)).insert (Nat.lt_succ_self _)
    (hs.wellFormed (by simp))
  tasks := h.tasks.insert_idle h.idle_fresh hs.ctl_eq
  jobs := (h.jobs.mono (Nat.le_succ _) fun _ hw => hw).seat
    (fun m job hj hid => absurd hid (h.not_named_fresh hj)) (by simp [hs.reload])
  marks := h.marks.seat
    (fun m job hj ho => absurd (Or.inl ho) (h.not_named_fresh hj)) (by simp [hs.reload])
  replies := h.replies.seat h.idle_fresh
  timers := h.timers.mono (Nat.le_succ _)
  watchdogs := h.watchdogs

theorem launch (h : Inv x a) (hs : s.Fresh (some a.nextTask))
    (hst : s.entry.status = .starting ∨ s.entry.status = .online) {pid : ℕ}
    {credentials : Option Credentials} (hruns : s.RunsAs pid credentials) :
    Inv x (({ a with nextId := a.nextId + 1 }.startTask a.nextId pid s.entry.spec credentials
      .fresh).setSlot a.nextId s) where
  flock := (h.flock.mono (Nat.le_succ _)).insert (Nat.lt_succ_self _)
    (hs.wellFormed fun _ => hst)
  tasks := h.tasks.launch h.idle_fresh hs.ctl_eq rfl .fresh hruns.pid_eq _ _
  jobs := (h.jobs.mono (Nat.le_succ _) fun _ hw => hw).seat
    (fun m job hj hid => absurd hid (h.not_named_fresh hj)) (by simp [hs.reload])
  marks := h.marks.seat
    (fun m job hj ho => absurd (Or.inl ho) (h.not_named_fresh hj)) (by simp [hs.reload])
  replies := h.replies.seat h.idle_fresh
  timers := h.timers.mono (Nat.le_succ _)
  watchdogs := h.watchdogs

theorem reseat (h : Inv x a) (hs : a.sheep[id]? = some s) (hctl : s.ctl = none)
    (hs' : s'.Fresh none) (hname : s'.name = s.name) : Inv x (a.setSlot id s') where
  flock := h.flock.insert (h.lt_nextId hs) (hs'.wellFormed (by simp))
  tasks := h.tasks.insert_idle (idle_of hs hctl) hs'.ctl_eq
  jobs := h.jobs.seat (fun m job hj hid => hname ▸ h.name_of_named hs hj hid) (by simp [hs'.reload])
  marks := h.marks.seat (by simp [hs]) (by simp [hs'.reload])
  replies := h.replies.seat (idle_of hs hctl)
  timers := h.timers
  watchdogs := h.watchdogs

/-- A slot with a new process, over one with none: fresh, or relaunched
with the marker it had. -/
theorem seatLive (h : Inv x a) (hs : a.sheep[id]? = some s) (hctl : s.ctl = none)
    (hwf : s'.WellFormed) (hname : s'.name = s.name) (hctl' : s'.ctl = some a.nextTask)
    (hreload : s'.entry.reload = .none ∨ s'.entry.reload = s.entry.reload) (via : SpawnVia)
    {pid : ℕ} {credentials : Option Credentials} (hruns : s'.RunsAs pid credentials) :
    Inv x ((a.startTask id pid s'.entry.spec credentials via).setSlot id s') where
  flock := h.flock.insert (h.lt_nextId hs) hwf
  tasks := h.tasks.launch (idle_of hs hctl) hctl' rfl via hruns.pid_eq _ _
  jobs := by
    refine h.jobs.seat (fun m job hj hid => hname ▸ h.name_of_named hs hj hid) ?_
    intro m job hj hnew q hq
    rcases hreload with e | e
    · simp [e] at hq
    · exact (h.jobs m job hj).new_mark id s q hnew hs (e ▸ hq)
  marks := by
    refine h.marks.seat (by simp [hs]) ?_
    intro hr hx
    rcases hreload with e | e
    · simp [e] at hr
    · have hlive := (h.marks.marked id s hs (e ▸ hr) hx).1
      simp [hctl] at hlive
  replies := h.replies.seat (idle_of hs hctl)
  timers := h.timers
  watchdogs := h.watchdogs

theorem remove (h : Inv x a) (hs : a.sheep[id]? = some s) (hctl : s.ctl = none) :
    Inv x (a.removeSlot id) where
  flock := h.flock.erase
  tasks := h.tasks.erase (idle_of hs hctl)
  jobs := h.jobs.erase
  marks := h.marks.erase
  replies := h.replies.erase (idle_of hs hctl)
  timers := h.timers
  watchdogs := h.watchdogs

/-! ## Exits -/

/-- A task ends. Its slot, whatever its marker, is the hole until it is
settled. -/
theorem exit (h : Inv .none a) {task : Task} (htask : task ∈ a.tasks)
    (hs : a.sheep[task.id]? = some s) (outcome : ExitOutcome) :
    Inv (.exiting task.id s) { a with
      tasks := a.tasks.erase task
      trace := .exited task.serial :: a.trace
      sheep := a.sheep.insert task.id (s.exited outcome) } where
  flock := h.flock.insert (h.lt_nextId hs) ((h.wellFormed hs).exited outcome)
  tasks := h.tasks.exit htask rfl
  jobs := h.jobs.seat (fun m job hj hid => (h.name_of_named hs hj hid : s.name = m))
    (fun m job hj hnew q => (h.jobs m job hj).new_mark task.id s q hnew hs)
  marks := by
    have hmarks : MarksOk (.exiting task.id s) a.sheep a.reloads a.shuttingDown :=
      ⟨h.marks.dropped, fun j t ht hr _ => h.marks.marked j t ht hr (by simp)⟩
    exact hmarks.seat (by simp [hs]) (by simp)
  replies := by
    refine ⟨fun p hp => ⟨(h.replies.waiting p hp).1, fun j hj => ?_⟩, h.replies.lt, h.replies.nodup⟩
    by_cases e : j = task.id
    · exact Or.inr ⟨s, by rw [e]⟩
    · rcases (h.replies.waiting p hp).2 j hj with ⟨t, ht, hc⟩ | ⟨taken, hx⟩
      · exact Or.inl ⟨t, by simpa [e] using ht, hc⟩
      · cases hx
  timers := h.timers
  watchdogs := h.watchdogs

theorem resolve (h : Inv (.exiting id taken) a) (info : ProcessInfo)
    (hleft : ∀ s, a.sheep[id]? = some s → s.entry.reload ≠ .replacement) :
    Inv .none (a.resolvePending id info) := by
  rw [Actor.resolvePending_eq]
  refine ⟨h.flock, h.tasks, h.jobs, ⟨h.marks.dropped, ?_⟩, h.replies.resolve info, h.timers,
    h.watchdogs⟩
  intro j t ht hr _
  refine h.marks.marked j t ht hr ?_
  rintro taken' hx
  simp only [Hole.exiting.injEq] at hx
  exact hleft t (hx.1 ▸ ht) hr

/-! ## Jobs -/

theorem up_of_job (h : Inv x a) (hj : a.reloads[n]? = some job) : a.shuttingDown = false := by
  cases hd : a.shuttingDown with
  | false => rfl
  | true =>
    rw [h.marks.dropped hd n] at hj
    cases hj

theorem newId_of_marked (h : Inv x a) (hs : a.sheep[id]? = some s)
    (hr : s.entry.reload = .replacement) (hx : ∀ taken, x ≠ .exiting id taken)
    (hj : a.reloads[s.name]? = some job) : job.swap.newId = some id := by
  obtain ⟨job', hj', hnew, -⟩ := (h.marks.marked id s hs hr hx).2 (h.up_of_job hj)
  rw [hj] at hj'
  exact Option.some.inj hj' ▸ hnew

theorem put (h : Inv x a) (hup : a.shuttingDown = false)
    (hjob : JobOk a.sheep (⟨n, a.nextDeadline⟩ :: a.watchdogs) a.nextId n job)
    (hput : ∀ (j : ℕ) (t : SheepSlot), a.sheep[j]? = some t → t.entry.reload = .replacement →
      t.name = n → (∀ taken, x ≠ .exiting j taken) → job.swap.newId = some j ∧
        (t.entry.status = .starting → (a.sheep[job.swap.oldId]?).isSome = true →
          job.swap.phase = .awaitReady)) :
    Inv x { a with
      reloads := a.reloads.insert n job
      nextDeadline := a.nextDeadline + 1
      watchdogs := ⟨n, a.nextDeadline⟩ :: a.watchdogs } where
  flock := h.flock
  tasks := h.tasks
  jobs := (h.jobs.mono le_rfl fun _ hw => List.mem_cons_of_mem _ hw).put hjob
  marks := h.marks.put hup hput
  replies := h.replies
  timers := h.timers
  watchdogs := h.watchdogs.cons n

theorem replaceJob (h : Inv x a) (hup : a.shuttingDown = false)
    (hjob : JobOk a.sheep a.watchdogs a.nextId n job)
    (hput : ∀ (j : ℕ) (t : SheepSlot), a.sheep[j]? = some t → t.entry.reload = .replacement →
      t.name = n → (∀ taken, x ≠ .exiting j taken) → job.swap.newId = some j ∧
        (t.entry.status = .starting → (a.sheep[job.swap.oldId]?).isSome = true →
          job.swap.phase = .awaitReady)) :
    Inv x { a with reloads := a.reloads.insert n job } where
  flock := h.flock
  tasks := h.tasks
  jobs := h.jobs.put hjob
  marks := h.marks.put hup hput
  replies := h.replies
  timers := h.timers
  watchdogs := h.watchdogs

theorem watched_fresh : (⟨n, a.nextDeadline⟩ : Watchdog) ∈ ⟨n, a.nextDeadline⟩ :: a.watchdogs :=
  List.mem_cons_self

/-- An app whose job has no replacement, or that has no job, has no slot
marked as one. -/
theorem no_replacement (h : Inv x a) (hup : a.shuttingDown = false)
    (hnone : ∀ job : ReloadJob, a.reloads[n]? = some job → job.swap.newId = none)
    (hs : a.sheep[id]? = some s) (hr : s.entry.reload = .replacement) (hname : s.name = n)
    (hx : ∀ taken, x ≠ .exiting id taken) : False := by
  obtain ⟨job, hj, hnew, -⟩ := (h.marks.marked id s hs hr hx).2 hup
  rw [hnone job (hname ▸ hj)] at hnew
  cases hnew

/-- A drainee's replacement takes the next id, under a job that now names
it. The drainee is marked already. -/
theorem replace (h : Inv x a) (hup : a.shuttingDown = false) (hold : oldId < a.nextId)
    (hname : ∀ t, a.sheep[oldId]? = some t → t.name = n)
    (hqueue : ∀ id ∈ queue, id < a.nextId ∧ ∀ t, a.sheep[id]? = some t → t.name = n)
    (hnodup : (oldId :: queue).Nodup)
    (hnone : ∀ job : ReloadJob, a.reloads[n]? = some job → job.swap.newId = none)
    (hs : s.ReplacesAs a.nextTask s') (hn : s.name = n) (mode : ReloadMode) {pid : ℕ}
    {credentials : Option Credentials} (hruns : s'.RunsAs pid credentials) :
    Inv x { a with
      nextId := a.nextId + 1
      sheep := a.sheep.insert a.nextId s'
      tasks := ⟨a.nextTask, a.nextId, n, .replacement, pid, s'.entry.spec, credentials⟩ :: a.tasks
      nextTask := a.nextTask + 1
      trace := .spawned ⟨a.nextTask, a.nextId, n, .replacement, pid, s'.entry.spec, credentials⟩ :: a.trace
      reloads := a.reloads.insert n
        ⟨queue, mode, ⟨oldId, some a.nextId, .awaitReady⟩, a.nextDeadline⟩
      nextDeadline := a.nextDeadline + 1
      watchdogs := ⟨n, a.nextDeadline⟩ :: a.watchdogs } := by
  have hjob : JobOk a.sheep (⟨n, a.nextDeadline⟩ :: a.watchdogs) (a.nextId + 1) n
      ⟨queue, mode, ⟨oldId, some a.nextId, .awaitReady⟩, a.nextDeadline⟩ :=
    { old_lt := hold.trans (Nat.lt_succ_self _)
      new_lt := by simp
      queue_lt := fun id hid => (hqueue id hid).1.trans (Nat.lt_succ_self _)
      distinct := by simpa using hold.ne'
      queued := hnodup
      new_queued := by
        intro id hid e
        exact (hqueue id hid).1.ne' (Option.some.inj e)
      old_name := hname
      new_name := by
        intro id t hid ht
        obtain rfl := Option.some.inj hid
        rw [h.fresh_id] at ht
        cases ht
      queue_name := fun id hid => (hqueue id hid).2
      new_mark := by
        intro id t q hid ht
        obtain rfl := Option.some.inj hid
        rw [h.fresh_id] at ht
        cases ht
      phase := by simp
      serial := by simp
      watched := watched_fresh }
  -- the job first, naming an id nobody holds yet, then the slot it names
  have hjobs := ((h.jobs.mono (Nat.le_succ _) fun _ hw => List.mem_cons_of_mem _ hw).put hjob)
  have hmarks : MarksOk x a.sheep (a.reloads.insert n
      ⟨queue, mode, ⟨oldId, some a.nextId, .awaitReady⟩, a.nextDeadline⟩) a.shuttingDown :=
    h.marks.put hup fun j t ht hr e hx => (h.no_replacement hup hnone ht hr e hx).elim
  refine ⟨(h.flock.mono (Nat.le_succ _)).insert (Nat.lt_succ_self _) hs.wellFormed,
    h.tasks.launch h.idle_fresh hs.ctl (hs.name.trans hn) .replacement hruns.pid_eq _ _,
    hjobs.seat ?_ ?_,
    hmarks.seat ?_ ?_, h.replies.seat h.idle_fresh, h.timers.mono (Nat.le_succ _),
    h.watchdogs.cons n⟩
  · intro m job hj hid
    rw [Table.get_insert] at hj
    split at hj
    · next e => rw [e, hs.name, hn]
    · exact absurd hid (h.not_named_fresh hj)
  · simp [hs.reload]
  · intro m job hj ho
    rcases Table.of_insert hj with ⟨-, rfl⟩ | ⟨-, hj⟩
    · exact absurd ho hold.ne
    · exact absurd (Or.inl ho) (h.not_named_fresh hj)
  · intro _ _
    refine ⟨by simp [hs.ctl], fun _ => ?_⟩
    rw [hs.name, hn, Table.get_insert, if_pos rfl]
    exact ⟨_, rfl, rfl, rfl⟩

/-! ## The remaining writes -/

theorem answer (h : Inv x a) (answer : Answer) : Inv x (a.answer answer) where
  flock := h.flock
  tasks := h.tasks
  jobs := h.jobs
  marks := h.marks
  replies := { h.replies with
    lt := fun p hp => (h.replies.lt p hp).trans (Nat.lt_succ_self _) }
  timers := h.timers
  watchdogs := h.watchdogs

theorem park (h : Inv x a) {remaining : List ℕ} (hne : remaining ≠ [])
    (hlive : ∀ id ∈ remaining, ∃ s, a.sheep[id]? = some s ∧ s.ctl.isSome = true)
    (results : List ProcessInfo) (kind : ReplyKind) :
    Inv x (a.park remaining results kind) where
  flock := h.flock
  tasks := h.tasks
  jobs := h.jobs
  marks := h.marks
  replies :=
    { waiting := by
        intro p hp
        rcases List.mem_append.1 hp with hp | hp
        · exact h.replies.waiting p hp
        · obtain rfl := List.mem_singleton.1 hp
          exact ⟨hne, fun id hid => Or.inl (hlive id hid)⟩
      lt := by
        intro p hp
        rcases List.mem_append.1 hp with hp | hp
        · exact (h.replies.lt p hp).trans (Nat.lt_succ_self _)
        · obtain rfl := List.mem_singleton.1 hp
          exact Nat.lt_succ_self _
      nodup := by
        simp only [Actor.park, List.map_append]
        rw [List.nodup_append]
        refine ⟨h.replies.nodup, List.nodup_singleton _, ?_⟩
        intro tag htag tag' htag' e
        obtain ⟨p, hp, rfl⟩ := List.mem_map.1 htag
        have htag' : tag' = a.nextReply := by simpa using htag'
        exact absurd (h.replies.lt p hp) (by rw [e, htag']; exact lt_irrefl _) }
  timers := h.timers
  watchdogs := h.watchdogs

/-- A rewrite of one slot under a marker, a status or a flag that leaves
its reload marker alone or takes it off. -/
theorem touch (h : Inv x a) (hs : a.sheep[id]? = some s) (hwf : s'.WellFormed)
    (hname : s'.name = s.name) (hctl : s'.ctl = s.ctl) (hpid : s'.entry.pid = s.entry.pid)
    (hreload : s'.entry.reload = s.entry.reload ∨ s'.entry.reload = .none)
    (hstart : s'.entry.reload = .replacement → s'.entry.status = .starting →
      s.entry.status = .starting) (trace : List Effect) :
    Inv x { a with sheep := a.sheep.insert id s', trace := trace } := by
  refine h.write hs hwf hname hctl hpid ?_ ?_ trace
  · intro hr
    rcases hreload with e | e
    · exact ⟨e ▸ hr, hstart hr⟩
    · simp [e] at hr
  · intro q hq
    rcases hreload with e | e
    · exact Or.inl (e ▸ hq)
    · simp [e] at hq

theorem backOff (h : Inv x a) (hs : a.sheep[id]? = some s) (hctl : s.ctl = none)
    (hrest : s.RestsAs .waitingRestart s') (delay : Option ℕ) : Inv x (a.backOff id s' delay) := by
  have hpid := hrest.pid.trans ((h.wellFormed hs).idle_pid hctl).symm
  have hw := h.touch hs (hrest.wellFormed (h.wellFormed hs) hctl) hrest.name
    (hrest.ctl.trans hctl.symm) hpid (Or.inl hrest.reload) (by simp [hrest.status]) a.trace
  exact ⟨hw.flock, hw.tasks, hw.jobs, hw.marks, hw.replies,
    h.timers.cons (h.lt_nextId hs) s'.epoch delay, hw.watchdogs⟩

theorem remark (h : Inv x a) (names : List String) (kind : ManualKind) {kind' : ManualKind}
    (hk : kind' ≠ .delete) : Inv x (a.remark names kind kind') := by
  refine h.writeAll ?_ ?_ ?_ ?_ ?_ ?_ <;> intro id s hs
  · split
    · exact (h.wellFormed hs).remarked hk
    · exact h.wellFormed hs
  all_goals split <;> rfl

/-- A drainee is nobody's replacement when its app has no job, or one that
names none. -/
theorem not_newId (h : Inv x a) (hs : a.sheep[id]? = some s)
    (hnone : ∀ job : ReloadJob, a.reloads[s.name]? = some job → job.swap.newId = none) :
    ∀ (m : String) (job : ReloadJob), a.reloads[m]? = some job → job.swap.newId ≠ some id := by
  intro m job hj hnew
  have hm := h.reloads_of_newId hs hj hnew
  rw [hnone job (hm ▸ hj)] at hnew
  cases hnew

theorem drain (h : Inv x a) (hs : a.sheep[id]? = some s)
    (hnone : ∀ (m : String) (job : ReloadJob), a.reloads[m]? = some job → job.swap.newId ≠ some id)
    (newId : Option ℕ) : Inv x (a.setSlot id (s.draining newId)) :=
  h.write hs ((h.wellFormed hs).draining newId) rfl rfl rfl (by simp [SheepSlot.draining,
    SheepSlot.setReload]) (fun _ _ => Or.inr hnone) a.trace

theorem drained_name (hname : s.name = n) (newId : Option ℕ) {j : ℕ}
    (hj : ∀ t, a.sheep[j]? = some t → t.name = n) {t : SheepSlot}
    (ht : (a.sheep.insert oldId (s.draining newId))[j]? = some t) : t.name = n := by
  rcases Table.of_insert ht with ⟨-, rfl⟩ | ⟨-, ht⟩
  · exact hname
  · exact hj t ht

theorem dropJob (h : Inv x a)
    (hdrop : ∀ (job : ReloadJob) (newId : ℕ) (s : SheepSlot), a.reloads[n]? = some job →
      job.swap.newId = some newId → a.sheep[newId]? = some s → s.entry.reload ≠ .replacement) :
    Inv x (a.dropJob n) where
  flock := h.flock
  tasks := h.tasks
  jobs := h.jobs.drop n
  marks := by
    refine h.marks.drop ?_
    rintro j t ht hr hx hup rfl
    obtain ⟨job, hj, hnew, -⟩ := (h.marks.marked j t ht hr hx).2 hup
    exact hdrop job j t hj hnew ht hr
  replies := h.replies
  timers := h.timers
  watchdogs := h.watchdogs

theorem unwatch (h : Inv x a) (w : Watchdog)
    (hw : ∀ (n : String) (job : ReloadJob), a.reloads[n]? = some job → ⟨n, job.deadline⟩ ≠ w) :
    Inv x { a with watchdogs := a.watchdogs.erase w } where
  flock := h.flock
  tasks := h.tasks
  jobs := fun m job hj => { h.jobs m job hj with
    watched := (List.mem_erase_of_ne (hw m job hj)).2 (h.jobs m job hj).watched }
  marks := h.marks
  replies := h.replies
  timers := h.timers
  watchdogs := h.watchdogs.erase w

theorem shutdown (h : Inv x a) : Inv x { a with shuttingDown := true, reloads := ∅ } where
  flock := h.flock
  tasks := h.tasks
  jobs := by
    intro m job hj
    simp at hj
  marks := ⟨by simp, fun j t ht hr hx => ⟨(h.marks.marked j t ht hr hx).1, by simp⟩⟩
  replies := h.replies
  timers := h.timers
  watchdogs := h.watchdogs

end Inv

/-! ## Every move -/

theorem SheepSlot.restore_name (s : SheepSlot) : s.restore.name = s.name := by
  simp only [SheepSlot.restore]
  split <;> rfl

theorem SheepSlot.restore_ctl (s : SheepSlot) : s.restore.ctl = s.ctl := by
  simp only [SheepSlot.restore]
  split <;> rfl

theorem SheepSlot.restore_pid (s : SheepSlot) : s.restore.entry.pid = s.entry.pid := by
  simp only [SheepSlot.restore]
  split <;> rfl

theorem SheepSlot.restore_reload (s : SheepSlot) : s.restore.entry.reload = .none := by
  simp only [SheepSlot.restore]
  split <;> rfl

/-- **A move keeps the invariant.** -/
theorem Move.inv {c : Turn} {p q : Point} (hm : Move c p q) (h : Inv p.hole p.actor) :
    Inv q.hole q.actor := by
  cases hm with
  | quiet | hear | drains | disable | enable | panic | assertFail =>
    exact ⟨h.flock, h.tasks, h.jobs, h.marks, h.replies, h.timers, h.watchdogs⟩
  | bump n hn =>
    exact ⟨h.flock.mono hn, h.tasks, h.jobs.mono hn fun _ hw => hw, h.marks, h.replies,
      h.timers.mono hn, h.watchdogs⟩
  | answer answer _ => exact h.answer answer
  | park remaining results kind hne hlive _ => exact h.park hne hlive results kind
  | halt _ _ =>
    have ha := h.answer .shutdown
    exact ⟨ha.flock, ha.tasks, ha.jobs, ha.marks, ha.replies, ha.timers, ha.watchdogs⟩
  | edit s' hs hag =>
    exact h.touch hs (hag.wellFormed (h.wellFormed hs)) hag.name hag.ctl hag.pid (Or.inl hag.reload)
      (fun _ hst => hag.status ▸ hst) _
  | editAll f hf =>
    exact h.writeAll (fun id s hs => (hf id s hs).wellFormed (h.wellFormed hs))
      (fun id s hs => (hf id s hs).name) (fun id s hs => (hf id s hs).ctl)
      (fun id s hs => (hf id s hs).pid) (fun id s hs => (hf id s hs).status) (fun id s hs => (hf id s hs).reload)
  | rest hs hctl hrest hstatus =>
    refine h.touch hs (hrest.wellFormed (h.wellFormed hs) hctl) hrest.name
      (hrest.ctl.trans hctl.symm) (hrest.pid.trans ((h.wellFormed hs).idle_pid hctl).symm) (Or.inl hrest.reload) ?_ _
    rcases hstatus with e | ⟨e, -⟩ <;> simp [hrest.status, e]
  | backOff delay hs hctl hrest _ _ => exact h.backOff hs hctl hrest delay
  | register hs _ _ => exact h.register hs
  | launch hs hst _ _ _ hruns => exact h.launch hs hst hruns
  | reseat hs hctl hs' _ hname _ _ _ _ _ => exact h.reseat hs hctl hs' hname
  | reseatLive hs hctl hs' hst hname _ _ _ _ _ hruns =>
    exact h.seatLive hs hctl (hs'.wellFormed fun _ => hst) hname hs'.ctl_eq (Or.inl hs'.reload) _
      hruns
  | relaunch hs hctl hrel _ _ _ hruns =>
    exact h.seatLive hs hctl (hrel.wellFormed (h.wellFormed hs) hctl) hrel.name hrel.ctl
      (Or.inr hrel.reload) _ hruns
  | claim m cap hs _ hctl hauto _ =>
    refine h.touch hs ((h.wellFormed hs).claimed ?_ hauto) rfl rfl rfl (Or.inl rfl)
      (fun _ hst => hst) _
    intro hk
    rcases hctl with hlive | ⟨-, hk', -⟩
    · exact hlive
    · exact absurd hk hk'
  | displace m cap hs _ _ hop hctl _ =>
    exact h.touch hs ((h.wellFormed hs).claimed hctl (by simp [hop])) rfl rfl rfl (Or.inl rfl)
      (fun _ hst => hst) _
  | doom hs hctl hman =>
    exact h.touch hs ((h.wellFormed hs).doom hctl hman) rfl rfl rfl (Or.inl rfl) (fun _ hst => hst) _
  | remarkStop names _ => exact h.remark names .restart (by simp)
  | remarkRestart names _ _ => exact h.remark names .stop (by simp)
  | deregister hs hctl _ => exact h.remove hs hctl
  | exit task outcome _ _ htask hs _ => exact h.exit htask hs outcome
  | resolve info hset _ => exact h.resolve info fun s hs => (hset.2 s hs).1
  | expire t =>
    exact ⟨h.flock, h.tasks, h.jobs, h.marks, h.replies, h.timers.erase t, h.watchdogs⟩
  | fire t _ _ _ _ _ _ _ =>
    refine ⟨h.flock, h.tasks, h.jobs, ⟨h.marks.dropped, ?_⟩, ?_, h.timers.erase t, h.watchdogs⟩
    · exact fun j s hs hr _ => h.marks.marked j s hs hr (by simp)
    · refine ⟨fun p hp => ⟨(h.replies.waiting p hp).1, fun j hj => ?_⟩, h.replies.lt,
        h.replies.nodup⟩
      exact ((h.replies.waiting p hp).2 j hj).imp_right (by simp)
  | honour =>
    refine ⟨h.flock, h.tasks, h.jobs, ⟨h.marks.dropped, ?_⟩, ?_, h.timers, h.watchdogs⟩
    · exact fun j s hs hr _ => h.marks.marked j s hs hr (by simp)
    · refine ⟨fun p hp => ⟨(h.replies.waiting p hp).1, fun j hj => ?_⟩, h.replies.lt,
        h.replies.nodup⟩
      exact ((h.replies.waiting p hp).2 j hj).imp_right (by simp)
  | @beginOverlap a n oldId pid s s' queue credentials hs hname _ _ hup hjob hrep _ _ hnodup hq hqn
      hruns =>
    have hnone : ∀ job : ReloadJob, a.reloads[n]? = some job → job.swap.newId = none := by
      simp [hjob]
    have hd := h.drain hs (h.not_newId hs (hname ▸ hnone)) (some a.nextId)
    have hold : ∀ u, a.sheep[oldId]? = some u → u.name = n := by simp [hs, hname]
    exact hd.replace hup (h.lt_nextId hs) (fun t => Inv.drained_name hname _ hold)
      (fun id hid => ⟨hq id hid, fun t => Inv.drained_name hname _ (hqn id hid)⟩) hnodup hnone hrep
      hname .overlap hruns
  | putBack hs _ _ =>
    exact h.touch hs (((h.wellFormed hs).setStatus (SheepSlot.restoredStatus_running _)).setReload _)
      rfl rfl rfl (Or.inr rfl) (by simp [SheepSlot.setReload]) _
  | @beginSerial a n oldId s queue hs hname _ hup hjob _ _ hnodup hq hqn =>
    have hnone : ∀ job : ReloadJob, a.reloads[n]? = some job → job.swap.newId = none := by
      simp [hjob]
    have hd := h.drain hs (h.not_newId hs (hname ▸ hnone)) none
    refine hd.put hup ?_ fun j t ht hr e hx => (hd.no_replacement hup hnone ht hr e hx).elim
    exact
      { old_lt := h.lt_nextId hs
        new_lt := by simp
        queue_lt := hq
        distinct := by simp
        queued := hnodup
        new_queued := by simp
        old_name := fun t => Inv.drained_name hname _ (by simp [hs, hname])
        new_name := by simp
        queue_name := fun id hid t => Inv.drained_name hname _ (hqn id hid)
        new_mark := by simp
        phase := by simp
        serial := by simp
        watched := Inv.watched_fresh }
  | @serialSpawn a n oldId pid s s' taken job credentials hs hname _ hj hphase hold _ hrep hruns =>
    have hjob := h.jobs n job hj
    have hnew : job.swap.newId = none := hjob.phase.2 hphase
    have hnone : ∀ job' : ReloadJob, a.reloads[n]? = some job' → job'.swap.newId = none := by
      intro job' hj'
      rw [hj] at hj'
      exact Option.some.inj hj' ▸ hnew
    have hd := h.drain hs (h.not_newId hs (hname ▸ hnone)) (some a.nextId)
    subst hold
    exact hd.replace (h.up_of_job hj) (h.lt_nextId hs)
      (fun t => Inv.drained_name hname _ hjob.old_name)
      (fun id hid => ⟨hjob.queue_lt id hid,
        fun t => Inv.drained_name hname _ (hjob.queue_name id hid)⟩)
      hjob.queued hnone hrep hname job.mode hruns
  | scratch hs _ _ hnone => exact h.drain hs hnone _
  | commit hj hnew hstart _ =>
    have hjob := h.jobs _ _ hj
    refine h.replaceJob (h.up_of_job hj) { hjob with phase := by simp [hnew], serial := by simp } ?_
    intro j t ht hr hname hx
    have hnew' := h.newId_of_marked ht hr hx (hname ▸ hj)
    refine ⟨hnew', fun hst ho => ?_⟩
    obtain rfl := Option.some.inj (hnew.symm.trans hnew')
    rcases hstart t ht with hne | hgone
    · exact absurd hst hne
    · rw [hgone] at ho
      cases ho
  | verify hj hnew hs hon hgone _ =>
    have hjob := h.jobs _ _ hj
    refine h.put (h.up_of_job hj)
      { hjob with phase := by simp [hnew], serial := by simp, watched := Inv.watched_fresh } ?_
    intro j t ht hr hname hx
    have hnew' := h.newId_of_marked ht hr hx (hname ▸ hj)
    refine ⟨hnew', fun _ ho => ?_⟩
    rw [hgone] at ho
    cases ho
  | drop n hdrop => exact h.dropJob hdrop
  | unmark hs _ =>
    exact h.touch hs ((h.wellFormed hs).setReload .none) rfl rfl rfl (Or.inr rfl)
      (by simp [SheepSlot.setReload]) _
  | @restore x a n job s hj hphase hs hnew =>
    have hr := h.touch hs (h.wellFormed hs).restore s.restore_name s.restore_ctl s.restore_pid
      (Or.inr s.restore_reload) (by simp [s.restore_reload]) a.trace
    refine hr.dropJob ?_
    intro job' newId t hj' hnew' ht
    obtain rfl := Option.some.inj (hj.symm.trans hj')
    have hne : newId ≠ job.swap.oldId := by
      rintro rfl
      exact (h.jobs n job hj).distinct hnew'
    rw [Table.get_insert, if_neg hne] at ht
    exact hnew newId t hnew' ht
  | @lapse x a n job s hj hphase hs =>
    have hr := h.touch hs ((h.wellFormed hs).setReload .none) rfl rfl rfl (Or.inr rfl)
      (by simp [SheepSlot.setReload]) a.trace
    refine hr.dropJob ?_
    intro job' newId t hj' hnew' _
    -- a swap that drains first has no replacement yet
    obtain rfl := Option.some.inj (hj.symm.trans hj')
    rw [(h.jobs n job hj).phase.2 hphase] at hnew'
    cases hnew'
  | online hs _ _ _ =>
    exact h.touch hs (((h.wellFormed hs).setStatus (Or.inr (Or.inl rfl))).setReadyFailed false) rfl
      rfl rfl (Or.inl rfl) (by simp [SheepSlot.setStatus]) _
  | parkFailed hs _ =>
    exact h.touch hs ((h.wellFormed hs).setReadyFailed true) rfl rfl rfl (Or.inl rfl)
      (fun _ hst => hst) _
  | demote hs _ _ hr =>
    exact h.touch hs (((h.wellFormed hs).setStatus (Or.inl rfl)).setReadyFailed true) rfl rfl rfl
      (Or.inl rfl) (fun hr' => absurd hr' hr) _
  | shutdown => exact h.shutdown
  | unwatch w hw => exact h.unwatch w hw

/-- **A sequence of moves keeps the invariant.** -/
theorem Moves.inv {c : Turn} {p q : Point} (hm : Moves c p q) (h : Inv p.hole p.actor) :
    Inv q.hole q.actor :=
  micro_invariant (P := fun p : Point => Inv p.hole p.actor) (fun _ _ h hm => hm.inv h) hm h

/-! ## Names and numbers -/

/-- A table whose slots below `n` keep their apps, and their numbers but
for those under a `free` id. -/
def KeepsNames (n : ℕ) (free : ℕ → Prop) (sheep sheep' : Std.ExtTreeMap ℕ SheepSlot) : Prop :=
  ∀ (id : ℕ) (s' : SheepSlot), id < n → sheep'[id]? = some s' →
    ∃ s, sheep[id]? = some s ∧ s'.name = s.name ∧ (s'.entry.inst = s.entry.inst ∨ free id)

namespace KeepsNames

variable {sheep sheep' sheep'' : Std.ExtTreeMap ℕ SheepSlot} {n n' id : ℕ} {s s' : SheepSlot}
variable {free : ℕ → Prop}

theorem refl (n : ℕ) (sheep : Std.ExtTreeMap ℕ SheepSlot) : KeepsNames n free sheep sheep :=
  fun _ s' _ hs' => ⟨s', hs', rfl, Or.inl rfl⟩

theorem trans (h : KeepsNames n free sheep sheep') (h' : KeepsNames n' free sheep' sheep'')
    (hn : n ≤ n') : KeepsNames n free sheep sheep'' := by
  intro id s'' hid hs''
  obtain ⟨s', hs', e', hinst'⟩ := h' id s'' (hid.trans_le hn) hs''
  obtain ⟨s, hs, e, hinst⟩ := h id s' hid hs'
  refine ⟨s, hs, e'.trans e, ?_⟩
  rcases hinst' with hinst' | hfree
  · exact hinst.imp_left hinst'.trans
  · exact Or.inr hfree

theorem write (h : KeepsNames n free sheep sheep') (hs : sheep'[id]? = some s)
    (hname : s'.name = s.name) (hinst : s'.entry.inst = s.entry.inst ∨ free id) :
    KeepsNames n free sheep (sheep'.insert id s') := by
  intro j t hj ht
  rcases Table.of_insert ht with ⟨e, rfl⟩ | ⟨-, ht⟩
  · subst e
    obtain ⟨u, hu, hun, hui⟩ := h j s hj hs
    refine ⟨u, hu, hname.trans hun, ?_⟩
    rcases hinst with hinst | hfree
    · exact hui.imp_left hinst.trans
    · exact Or.inr hfree
  · exact h j t hj ht

theorem insert (h : KeepsNames n free sheep sheep') (hs : sheep'[id]? = some s)
    (hname : s'.name = s.name) (hinst : s'.entry.inst = s.entry.inst) :
    KeepsNames n free sheep (sheep'.insert id s') :=
  h.write hs hname (Or.inl hinst)

theorem enter (h : KeepsNames n free sheep sheep') (hid : n ≤ id) :
    KeepsNames n free sheep (sheep'.insert id s') := by
  intro j t hj ht
  rw [Table.get_insert, if_neg (hj.trans_le hid).ne] at ht
  exact h j t hj ht

theorem erase (h : KeepsNames n free sheep sheep') : KeepsNames n free sheep (sheep'.erase id) := by
  intro j t hj ht
  obtain ⟨-, ht⟩ := Table.of_erase ht
  exact h j t hj ht

theorem map {f : SheepSlot → SheepSlot} (hf : ∀ (id : ℕ) (s : SheepSlot),
    sheep[id]? = some s → (f s).name = s.name ∧ (f s).entry.inst = s.entry.inst) :
    KeepsNames n free sheep (sheep.map fun _ s => f s) := by
  intro j t _ ht
  rw [Table.get_map, Option.map_eq_some_iff] at ht
  obtain ⟨s, hs, rfl⟩ := ht
  exact ⟨s, hs, (hf j s hs).1, Or.inl (hf j s hs).2⟩

end KeepsNames

theorem SheepSlot.draining_name (s : SheepSlot) (newId : Option ℕ) :
    (s.draining newId).name = s.name := rfl

theorem SheepSlot.draining_inst (s : SheepSlot) (newId : Option ℕ) :
    (s.draining newId).entry.inst = s.entry.inst := rfl

theorem SheepSlot.restore_inst (s : SheepSlot) : s.restore.entry.inst = s.entry.inst := by
  simp only [SheepSlot.restore]
  split <;> rfl

/-- **A move renames no slot**, renumbers none but a resting dog's, and
hands out ids upwards. -/
theorem Move.names {c : Turn} {p q : Point} (hm : Move c p q) :
    p.actor.nextId ≤ q.actor.nextId ∧
      KeepsNames p.actor.nextId c.Reseats p.actor.sheep q.actor.sheep := by
  have h : KeepsNames p.actor.nextId c.Reseats p.actor.sheep p.actor.sheep := .refl _ _
  cases hm with
  | quiet | hear | drains | answer | park | halt | disable | enable | expire | fire | honour | commit |
    verify | drop | shutdown | unwatch | panic | assertFail => exact ⟨le_rfl, h⟩
  | bump n hn => exact ⟨hn, h⟩
  | edit s' hs hag => exact ⟨le_rfl, h.insert hs hag.name hag.inst⟩
  | editAll f hf => exact ⟨le_rfl, .map fun id s hs => ⟨(hf id s hs).name, (hf id s hs).inst⟩⟩
  | rest hs _ hrest _ | backOff _ hs _ hrest _ _ =>
    exact ⟨le_rfl, h.insert hs hrest.name hrest.inst⟩
  | register | launch => exact ⟨Nat.le_succ _, h.enter le_rfl⟩
  | reseat hs _ _ _ hname _ _ _ _ _ _ _ hres | reseatLive hs _ _ _ hname _ _ _ _ _ _ _ _ hres =>
    exact ⟨le_rfl, h.write hs hname (Or.inr hres)⟩
  | relaunch hs _ hrel _ _ _ => exact ⟨le_rfl, h.insert hs hrel.name hrel.inst⟩
  | claim _ _ hs _ _ _ _ | displace _ _ hs _ _ _ _ _ | doom hs _ _ | exit task outcome _ _ _ hs _
  | putBack hs _ _ | beginSerial hs _ _ _ _ _ _ _ _ _ | scratch hs _ _ _ | unmark hs _
  | lapse _ _ hs | online hs _ _ _ | parkFailed hs _ | demote hs _ _ _ =>
    exact ⟨le_rfl, h.insert hs rfl rfl⟩
  | remarkStop | remarkRestart =>
    refine ⟨le_rfl, .map fun id s _ => ?_⟩
    split <;> exact ⟨rfl, rfl⟩
  | deregister => exact ⟨le_rfl, h.erase⟩
  | resolve info _ _ =>
    rw [Actor.resolvePending_eq]
    exact ⟨le_rfl, h⟩
  | beginOverlap hs _ _ _ _ _ _ _ _ _ _ _ | serialSpawn hs _ _ _ _ _ _ _ =>
    exact ⟨Nat.le_succ _, (h.insert hs (SheepSlot.draining_name _ _)
      (SheepSlot.draining_inst _ _)).enter le_rfl⟩
  | restore _ _ hs _ =>
    exact ⟨le_rfl, h.insert hs (SheepSlot.restore_name _) (SheepSlot.restore_inst _)⟩

theorem Moves.names {c : Turn} {p q : Point} (hm : Moves c p q) :
    p.actor.nextId ≤ q.actor.nextId ∧
      KeepsNames p.actor.nextId c.Reseats p.actor.sheep q.actor.sheep := by
  induction hm with
  | refl => exact ⟨le_rfl, .refl _ _⟩
  | tail _ hm ih => exact ⟨ih.1.trans hm.names.1, ih.2.trans hm.names.2 ih.1⟩

end Supervisor

end Shep
