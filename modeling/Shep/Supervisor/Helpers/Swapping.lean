import Mathlib.Data.List.Dedup
import Shep.Supervisor.Helpers.Claiming

/-!
# Supervisor — reloads as moves

Starting a swap, committing it, ending it and aborting it, written as
moves. A job is found by one of the ids it names, so the lookups come
first; then one lemma per function of `actor_reload.rs` and
`actor_reload_done.rs`.
-/

namespace Shep

namespace Supervisor

theorem ReloadJob.names_iff {job : ReloadJob} {id : ℕ} :
    job.names id = true ↔ job.swap.oldId = id ∨ job.swap.newId = some id := by
  simp [ReloadJob.names]

namespace Actor

variable {c : Turn} {w : World} {x : Hole} {a : Actor} {id oldId newId : ℕ} {s : SheepSlot}
variable {name n : String} {job : ReloadJob} {queue : List ℕ} {p : ReloadJob → Bool}

/-! ## Finding a job -/

theorem jobWhere_some (h : a.jobWhere p = some n) :
    ∃ job : ReloadJob, a.reloads[n]? = some job ∧ p job = true := by
  simp only [jobWhere, Option.map_eq_some_iff, Prod.exists] at h
  obtain ⟨m, job, hfind, rfl⟩ := h
  exact ⟨job, Table.mem_toList.1 (List.mem_of_find?_eq_some hfind),
    by simpa using List.find?_some hfind⟩

theorem jobWhere_none (h : a.jobWhere p = none) (hj : a.reloads[n]? = some job) :
    p job = false := by
  simp only [jobWhere, Option.map_eq_none_iff, List.find?_eq_none] at h
  simpa using h (n, job) (Table.mem_toList.2 hj)

theorem reloadOf_replacement (h : Inv .none a) (hs : a.sheep[id]? = some s)
    (hr : s.entry.reload = .replacement) (hup : a.shuttingDown = false) :
    ∃ job : ReloadJob, a.reloadOf id = some s.name ∧ a.reloads[s.name]? = some job ∧
      job.swap.newId = some id ∧
      (s.entry.status = .starting → (a.sheep[job.swap.oldId]?).isSome = true →
        job.swap.phase = .awaitReady) := by
  obtain ⟨job, hj, hnew, hphase⟩ := (h.marks.marked id s hs hr (by simp)).2 hup
  refine ⟨job, ?_, hj, hnew, hphase⟩
  cases hf : a.reloadOf id with
  | none =>
    have hfalse := jobWhere_none hf hj
    simp [ReloadJob.names, hnew] at hfalse
  | some m =>
    obtain ⟨job', hj', hnames⟩ := jobWhere_some hf
    have hm : s.name = m :=
      h.name_of_named hs hj' ((ReloadJob.names_iff.1 hnames).imp_right Or.inl)
    rw [hm]

/-! ## Starting a swap -/

/-- What `spawn_replacement` gives a drainee's instance slot. -/
theorem replacing_replacesAs (hs : s.WellFormed) (credentials : Option Credentials)
    (task pid now : ℕ) : s.ReplacesAs task (s.replacing credentials task pid now) where
  name := hs.intendedSpec_name
  inst := rfl
  dog := rfl
  parked := rfl
  unparked := rfl
  status := rfl
  pid := rfl
  startedAt := rfl
  reload := rfl
  ctl := rfl
  manual := rfl
  pendingDelete := rfl
  epoch := rfl
  readyFailed := rfl

/-- A replacement carries on from its drainee: what it is spawned from and
under is what the drainee's own next child would be. -/
theorem replacing_heir {credentials : Option Credentials}
    (hc : s.intendedCredentials w = .ok credentials) (task pid now : ℕ) :
    s.Heir w (s.replacing credentials task pid now) where
  intended := rfl
  identified := by
    intro res hres hs
    have hintended : ∀ cs, w.resolve s.intendedSpec = .ok cs →
        res s.intendedSpec.user s.intendedSpec.group = .ok cs := fun cs h => (hres _).symm.trans h
    refine ⟨fun cs he => ?_, by simp [SheepSlot.replacing]⟩
    have he : credentials = cs := SpawnIdentity.resolved.inj he
    subst he
    show res s.intendedSpec.user s.intendedSpec.group = .ok credentials
    unfold SheepSlot.intendedCredentials at hc
    split at hc
    · next cs hcs =>
      split at hc
      · exact hintended _ hc
      · next hflag =>
        rw [← Except.ok.inj hc, ← hs.stored cs hcs, SheepSlot.intendedSpec]
        cases hp : s.entry.pending with
        | none => rfl
        | some p =>
          obtain ⟨hu, hg⟩ := hs.parked p hp (by simpa using hflag)
          rw [Option.getD_some, hu, hg]
    · exact hintended _ hc

/-- What `spawn_replacement` can come to, for a registered drainee. -/
inductive Replaced (w : World) (oldId : ℕ) (s : SheepSlot) (mode : ReloadMode) (a : Actor) :
    Except String ℕ × Actor → Prop
  /-- Refused before anything was written but the id. -/
  | refused (reason : String) (nextId : ℕ) : a.nextId ≤ nextId →
      Replaced w oldId s mode a (.error reason, { a with nextId := nextId })
  /-- The runner refused, and the drainee is put back. -/
  | putBack (reason : String) : mode = .overlap →
      Replaced w oldId s mode a (.error reason, { a with nextId := a.nextId + 1 }.setSlot oldId
        ((s.setStatus (restoredStatus s)).setReload .none))
  /-- The runner refused, and the drainee is gone already. -/
  | scratched (reason : String) : mode = .serial →
      Replaced w oldId s mode a (.error reason, { a with nextId := a.nextId + 1 }.setSlot oldId
        (s.draining (some a.nextId)))
  | spawned {s' : SheepSlot} {pid : ℕ} {credentials : Option Credentials} :
      s.ReplacesAs a.nextTask s' → s.name ∉ a.disabled → s'.RunsAs pid credentials →
      s.Heir w s' →
      Replaced w oldId s mode a (.ok a.nextId, { a with
        nextId := a.nextId + 1
        sheep := (a.sheep.insert oldId (s.draining (some a.nextId))).insert a.nextId s'
        tasks := ⟨a.nextTask, a.nextId, s.name, .replacement, pid, s'.entry.spec, credentials⟩ :: a.tasks
        nextTask := a.nextTask + 1
        trace := .spawned ⟨a.nextTask, a.nextId, s.name, .replacement, pid, s'.entry.spec, credentials⟩ :: a.trace
        readies := ⟨a.nextId, 0, true⟩ :: a.readies })

theorem spawnReplacement_replaced (h : Inv x a) (hs : a.sheep[oldId]? = some s)
    (mode : ReloadMode) :
    Replaced w oldId s mode a (a.spawnReplacement w oldId mode) := by
  unfold spawnReplacement
  rw [hs]
  dsimp only
  split
  · exact .refused _ a.nextId le_rfl
  · next hdis =>
    have hen : s.name ∉ a.disabled := by simpa [isDisabled] using hdis
    split
    · exact .refused _ a.nextId le_rfl
    · next credentials hcred =>
      split
      · exact .refused _ _ (Nat.le_succ _)
      · split
        · next pid _ =>
          have hrep := replacing_replacesAs (h.wellFormed hs) credentials a.nextTask pid w.now
          have hsp : Replaced w oldId s mode a (.ok a.nextId, _) :=
            .spawned hrep hen (⟨rfl, rfl⟩ : SheepSlot.RunsAs pid credentials _)
              (replacing_heir hcred _ _ _)
          rw [← hrep.name] at hsp
          exact hsp
        · next reason _ =>
          cases mode with
          | overlap =>
            have hput : Replaced w oldId s .overlap a (.error reason, _) := .putBack reason rfl
            simpa [setSlot] using hput
          | serial => exact .scratched _ rfl

theorem dropJob_moves (hj : a.reloads[n]? = none) : Moves c ⟨x, a⟩ ⟨x, a.dropJob n⟩ :=
  .single (.drop n (by simp [hj]) (by simp [hj]))

/-- What a reload may take next: ids this turn may queue, of its own app. -/
structure Queueable (c : Turn) (a : Actor) (n : String) (queue : List ℕ) : Prop where
  queued : ∀ id ∈ queue, c.Queued n id
  nodup : queue.Nodup
  lt : ∀ id ∈ queue, id < a.nextId
  name : ∀ id ∈ queue, ∀ s, a.sheep[id]? = some s → s.name = n

theorem Queueable.tail (h : Queueable c a n (id :: queue)) : Queueable c a n queue where
  queued := fun j hj => h.queued j (List.mem_cons_of_mem _ hj)
  nodup := (List.nodup_cons.1 h.nodup).2
  lt := fun j hj => h.lt j (List.mem_cons_of_mem _ hj)
  name := fun j hj => h.name j (List.mem_cons_of_mem _ hj)

theorem drain_moves {mode : ReloadMode} {swap : ReloadSwap} (hj : a.reloads[n]? = some job)
    (hmode : job.mode = mode) (hswap : { job.swap with phase := swap.phase } = swap)
    (hname : ∀ s, a.sheep[swap.oldId]? = some s → s.name = n)
    (hready : mode = .overlap → ∃ newId, swap.newId = some newId ∧ .ready newId ∈ a.trace) :
    Moves c ⟨.none, a⟩ ⟨.none, a.drain n mode swap⟩ := by
  subst hmode
  rw [← hswap] at hname hready ⊢
  refine .head (.drains swap.phase hj hready) ?_
  refine claimManual_moves _ _ (by simp) (by simp) (fun s hs => Or.inr ⟨rfl, job, ?_, rfl⟩)
    (fun _ => ⟨_, _, _, _, rfl, rfl⟩) (Or.inr (Or.inl rfl))
  rw [hname s hs]
  exact hj

theorem drain_putJob (n m : String) (job : ReloadJob) (mode : ReloadMode) (swap : ReloadSwap)
    (a : Actor) : (a.putJob n job).drain m mode swap = (a.drain m mode swap).putJob n job := by
  unfold drain putJob
  cases hs : a.sheep[swap.oldId]? with
  | none => simp [claimManual, hs]
  | some s =>
    cases hm : s.manual with
    | none =>
      cases hc : s.ctl <;> simp [claimManual, hs, hm, hc, mark, sendKill, setSlot]
    | some inFlight =>
      simp only [claimManual, hs, hm]
      split <;> rfl

/-- A slot a claim has reached is claimed. -/
theorem claimManual_claimed {m : PendingManual} {cap : LadderCap}
    (hs : (a.claimManual id m cap).sheep[id]? = some s) : s.manual.isSome = true := by
  unfold claimManual at hs
  split at hs
  · next hnone =>
    rw [hnone] at hs
    cases hs
  · next t ht =>
    split at hs
    · unfold sendKill at hs
      split at hs <;>
        · simp only [mark, setSlot, Table.get_insert, if_true, Option.some.injEq] at hs
          rw [← hs]
          rfl
    · next inFlight hheld =>
      split at hs
      · simp only [mark, setSlot, Table.get_insert, if_true, Option.some.injEq] at hs
        rw [← hs]
        rfl
      · rw [ht] at hs
        rw [← Option.some.inj hs, hheld]
        rfl

theorem beginSerialDrain_moves (hq : Queueable c a n (oldId :: queue))
    (hs : a.sheep[oldId]? = some s) (hrep : replaceable s = true) (hup : a.shuttingDown = false)
    (hj : a.reloads[n]? = none) :
    Moves c ⟨.none, a⟩ ⟨.none, a.beginSerialDrain n oldId s queue⟩ := by
  have hname := hq.name oldId List.mem_cons_self s hs
  have hbegin : Move c ⟨.none, a⟩ ⟨.none, _⟩ := .beginSerial hs hname hrep hup hj
    (hq.queued oldId List.mem_cons_self) hq.tail.queued hq.nodup hq.tail.lt hq.tail.name
  refine .head hbegin ?_
  unfold beginSerialDrain
  simp only [armReloadDeadline, putJob, setSlot, Table.get_insert, if_true, Table.insert_insert]
  have hjob : (a.reloads.insert n
      ⟨queue, .serial, ⟨oldId, none, .drainFirst⟩, a.nextDeadline⟩)[n]? =
        some ⟨queue, .serial, ⟨oldId, none, .drainFirst⟩, a.nextDeadline⟩ := by simp
  refine drain_moves hjob rfl rfl (fun t ht => ?_) (by simp)
  simp only [Table.get_insert, if_true, Option.some.injEq] at ht
  rw [← ht, SheepSlot.draining_name, hname]

/-- `advance_reload` as moves: it starts one swap at most. -/
theorem advanceReload_moves (h : Inv .none a) (hj : a.reloads[n]? = none)
    (hq : Queueable c a n queue) :
    Moves c ⟨.none, a⟩ ⟨.none, a.advanceReload c.world n queue⟩ := by
  induction queue with
  | nil => exact dropJob_moves hj
  | cons oldId queue ih =>
    unfold advanceReload
    split
    · exact dropJob_moves hj
    · next hdown =>
      have hup : a.shuttingDown = false := by simpa using hdown
      split
      · exact ih hq.tail
      · next s hs =>
        split
        · exact ih hq.tail
        · next hrep =>
          have hrep : replaceable s = true := by simpa using hrep
          have hname := hq.name oldId List.mem_cons_self s hs
          split
          · exact beginSerialDrain_moves hq hs hrep hup hj
          · have hsp := spawnReplacement_replaced (w := c.world) h hs .overlap
            generalize a.spawnReplacement c.world oldId .overlap = r at hsp
            cases hsp with
            | refused reason nextId hle => exact .head (.bump nextId hle) (dropJob_moves hj)
            | putBack reason _ =>
              exact .head (.bump _ (Nat.le_succ _))
                (.head (.putBack hs hrep (hname ▸ hj) hup) (dropJob_moves hj))
            | scratched _ hmode => cases hmode
            | spawned hrepl hen hruns hheir =>
              rw [hname] at hen
              have hbegin : Move c ⟨.none, a⟩ ⟨.none, _⟩ := .beginOverlap hs hname hrep hen hup hj
                hrepl (hq.queued oldId List.mem_cons_self) hq.tail.queued hq.nodup hq.tail.lt
                hq.tail.name hruns hheir
              refine .tail (.single hbegin) ?_
              simp only [putJob, armReloadDeadline, Table.get_insert, if_true, Table.insert_insert,
                hname]
              exact .quiet _ _ _

/-! ## Ending a swap -/

theorem clearReload_dropJob (id : ℕ) (n : String) (a : Actor) :
    (a.dropJob n).clearReload id = (a.clearReload id).dropJob n := by
  cases hs : a.sheep[id]? <;> simp [clearReload, modifySlot, dropJob, setSlot, hs]

theorem oldId_ne_newId (h : Inv x a) (hj : a.reloads[n]? = some job)
    (hnew : job.swap.newId = some id) (hs : a.sheep[id]? = some s) {m : String} {job' : ReloadJob}
    (hj' : a.reloads[m]? = some job') : job'.swap.oldId ≠ id := by
  intro hold
  obtain rfl := h.name_of_named hs hj' (Or.inl hold)
  obtain rfl := h.reloads_of_newId hs hj hnew
  rw [hj] at hj'
  obtain rfl := Option.some.inj hj'
  exact (h.jobs _ job hj).distinct (hold ▸ hnew)

/-- A swap with no way back: committed, or its drainee is gone. -/
def Past (a : Actor) (swap : ReloadSwap) : Prop :=
  swap.phase = .drainOld ∨ swap.phase = .verify ∨ a.sheep[swap.oldId]? = none

theorem unmarkNew_moves (h : Inv x a) (hj : a.reloads[n]? = some job)
    (hnew : job.swap.newId = some newId) (hpast : a.Past job.swap) :
    Moves c ⟨x, a⟩ ⟨x, a.clearReload newId⟩ := by
  unfold clearReload modifySlot
  split
  · next s hs =>
    refine .single (.unmark hs (fun m job' hj' => oldId_ne_newId h hj hnew hs hj')
      (fun q => (h.jobs n job hj).new_mark newId s q hnew hs) fun m job' hj' hphase hnew' hold => ?_)
    obtain rfl := h.reloads_of_newId hs hj hnew
    obtain rfl := h.reloads_of_newId hs hj' hnew'
    obtain rfl := Option.some.inj (hj.symm.trans hj')
    rcases hpast with hp | hp | hgone
    · simp [hp] at hphase
    · simp [hp] at hphase
    · simp [hgone] at hold
  · exact .refl

/-- Taking a job off its app, with its replacement unmarked. -/
theorem endSwap_moves (h : Inv x a) (hj : a.reloads[n]? = some job)
    (hnew : job.swap.newId = some newId) (hpast : a.Past job.swap) :
    Moves c ⟨x, a⟩ ⟨x, (a.dropJob n).clearReload newId⟩ := by
  rw [clearReload_dropJob]
  have hunmark : Moves c ⟨x, a⟩ ⟨x, a.clearReload newId⟩ := unmarkNew_moves h hj hnew hpast
  have hreloads : (a.clearReload newId).reloads = a.reloads := (Frame.modifySlot newId _ a).reloads
  have hold : (a.clearReload newId).sheep[job.swap.oldId]? = a.sheep[job.swap.oldId]? := by
    refine (Frame.modifySlot newId _ a).sheep _ ?_
    rintro rfl
    exact (h.jobs n job hj).distinct hnew
  refine hunmark.tail (.drop n ?_ ?_)
  · intro job' newId' s hj' hnew' hs
    rw [hreloads, hj] at hj'
    obtain rfl := Option.some.inj hj'
    obtain rfl := Option.some.inj (hnew.symm.trans hnew')
    unfold clearReload modifySlot at hs
    split at hs
    · simp only [setSlot, Table.get_insert, if_true, Option.some.injEq] at hs
      simp [← hs, SheepSlot.setReload]
    · next hnone =>
      rw [hnone] at hs
      cases hs
  · intro job' hj'
    rw [hreloads, hj] at hj'
    obtain rfl := Option.some.inj hj'
    rw [hold]
    exact hpast.imp_right (Or.imp_right Or.inl)

/-- Taking a job off its app before it has a replacement, with its drainee
unmarked. -/
theorem endDrain_moves (h : Inv x a) (hj : a.reloads[n]? = some job)
    (hnew : job.swap.newId = none) :
    Moves c ⟨x, a⟩ ⟨x, (a.dropJob n).clearReload job.swap.oldId⟩ := by
  rw [clearReload_dropJob]
  unfold clearReload modifySlot
  split
  · next s hs => exact .single (.lapse hj ((h.jobs n job hj).phase.1 hnew) hs)
  · next hgone =>
    refine .single (.drop n (fun job' newId s hj' hnew' => ?_) fun job' hj' => ?_)
    · rw [hj] at hj'
      rw [← Option.some.inj hj', hnew] at hnew'
      cases hnew'
    · rw [hj] at hj'
      rw [← Option.some.inj hj']
      exact Or.inr (Or.inr (Or.inl hgone))

/-- The reload moves on from a swap whose replacement is registered. -/
theorem moveOn_moves (h : Inv .none a) (hj : a.reloads[n]? = some job)
    (hnew : job.swap.newId = some newId) (hpast : a.Past job.swap) (hs : a.sheep[newId]? = some s)
    (hq : ∀ id ∈ job.queue, c.Queued n id) :
    Moves c ⟨.none, a⟩
      ⟨.none, ((a.dropJob n).clearReload newId).commitSwapSuccess c.world n newId job.queue⟩ := by
  have hjob := h.jobs n job hj
  have hend : Moves c ⟨.none, a⟩ ⟨.none, (a.dropJob n).clearReload newId⟩ :=
    endSwap_moves h hj hnew hpast
  have hsheep : (a.dropJob n).clearReload newId =
      (a.dropJob n).setSlot newId (s.setReload .none) := by
    simp [clearReload, modifySlot, dropJob, hs]
  rw [hsheep] at hend ⊢
  have hsome : ((a.dropJob n).setSlot newId (s.setReload .none)).sheep[newId]? =
      some (s.setReload .none) := by
    simp [setSlot]
  unfold commitSwapSuccess
  rw [hsome]
  refine hend.trans (advanceReload_moves (hend.inv h) (by simp [setSlot, dropJob])
    ⟨hq, (List.nodup_cons.1 hjob.queued).2, hjob.queue_lt, ?_⟩)
  intro id hid t ht
  simp only [setSlot, dropJob, Table.get_insert] at ht
  split at ht
  · next e =>
    subst e
    obtain rfl := Option.some.inj ht
    exact hjob.queue_name id hid s hs
  · exact hjob.queue_name id hid t ht

theorem isServing_iff : a.isServing id = true ↔
    ∃ s, a.sheep[id]? = some s ∧ s.entry.status = .online := by
  unfold isServing
  cases a.sheep[id]? <;> simp

/-- `finish_swap` as moves, once the drainee is gone. -/
theorem finishSwap_moves (h : Inv .none a) (hj : a.reloads[n]? = some job)
    (hnew : job.swap.newId = some newId) (hgone : a.sheep[job.swap.oldId]? = none)
    (hq : ∀ id ∈ job.queue, c.Queued n id) :
    Moves c ⟨.none, a⟩ ⟨.none, a.finishSwap c.world n⟩ := by
  unfold finishSwap
  simp only [hj, hnew]
  split
  · next hserving =>
    obtain ⟨s, hs, hon⟩ := isServing_iff.1 hserving
    split
    · next hprobe =>
      have hmode : job.mode = .overlap := by
        cases hm : job.mode with
        | overlap => rfl
        | serial => simp [postDrainProbe, hm] at hprobe
      have hv : Move c ⟨.none, a⟩ ⟨.none, _⟩ := .verify hj hnew hs hon hgone hmode
      simp only [hnew] at hv
      refine .tail (.single hv) ?_
      simp only [armReloadDeadline, putJob, hs, Table.get_insert, if_true, Table.insert_insert,
        spawnVerifyTask]
      exact .quiet _ _ _
    · exact moveOn_moves h hj hnew (Or.inr (Or.inr hgone)) hs hq
  · exact endSwap_moves h hj hnew (Or.inr (Or.inr hgone))

/-- `begin_drain` as moves: the replacement has been reported ready. -/
theorem beginDrain_moves (h : Inv .none a) (hj : a.reloads[n]? = some job)
    (hnew : job.swap.newId = some newId) (hs : a.sheep[newId]? = some s)
    (hon : s.entry.status = .online) (hready : c.ReportsReady newId)
    (hheard : .ready newId ∈ a.trace) (hq : ∀ id ∈ job.queue, c.Queued n id) :
    Moves c ⟨.none, a⟩ ⟨.none, a.beginDrain c.world n⟩ := by
  have hne : newId ≠ job.swap.oldId := by
    rintro rfl
    exact (h.jobs n job hj).distinct hnew
  unfold beginDrain
  simp only [hj]
  split
  · next hgone =>
    have hgone : a.sheep[job.swap.oldId]? = none := hgone
    have hcommit : Move c ⟨.none, a⟩ ⟨.none, a.putJob n
        { job with swap := { job.swap with phase := .drainOld } }⟩ :=
      .commit hj hnew (fun _ _ => Or.inr hgone) (Or.inl hready) (by simp [hgone])
    have hj' : (a.putJob n { job with swap := { job.swap with phase := .drainOld }
        }).reloads[n]? = some { job with swap := { job.swap with phase := .drainOld } } := by
      simp [putJob]
    exact .head hcommit (finishSwap_moves (hcommit.inv h) hj' hnew hgone hq)
  · -- the drainee is claimed by the time the swap is committed
    rw [drain_putJob]
    have hdrain : Moves c ⟨.none, a⟩
        ⟨.none, a.drain n job.mode { job.swap with phase := .drainOld }⟩ :=
      drain_moves hj rfl rfl (h.jobs n job hj).old_name fun _ => ⟨newId, hnew, hheard⟩
    have hframe : Frame job.swap.oldId { a with
        trace := .drains n job.mode { job.swap with phase := .drainOld } :: a.trace }
        (a.drain n job.mode { job.swap with phase := .drainOld }) := Frame.claimManual _ _ _ _
    refine hdrain.tail (.commit ?_ hnew (fun t ht => Or.inl ?_) (Or.inl hready) fun t ht => ?_)
    · rw [hframe.reloads]
      exact hj
    · rw [hframe.sheep newId hne] at ht
      simp [← Option.some.inj (hs.symm.trans ht), hon]
    · exact claimManual_claimed ht

/-! ## Aborting a swap -/

/-- What `abort_reload` does with the replacement. -/
def abandon (newId : Option ℕ) (a : Actor) : Actor :=
  match newId with
  | none => a
  | some newId =>
    match a.sheep[newId]? with
    | none => a
    | some replacement =>
      if replacement.ctl.isNone then a.setSlot newId (replacement.setReload .none)
      else
        (a.setSlot newId { replacement.setReload .none with pendingDelete := true }).claimManual
          newId ⟨.delete, .operator⟩ .stop

theorem abortReload_eq (hj : a.reloads[n]? = some job) (hphase : job.swap.phase = .awaitReady) :
    a.abortReload n =
      ((a.modifySlot job.swap.oldId SheepSlot.restore).dropJob n).abandon job.swap.newId := by
  have hcomm : (a.dropJob n).modifySlot job.swap.oldId SheepSlot.restore =
      (a.modifySlot job.swap.oldId SheepSlot.restore).dropJob n := by
    cases hs : a.sheep[job.swap.oldId]? <;> simp [modifySlot, dropJob, setSlot, hs]
  simp only [abortReload, hj, hphase, debugAssert, BEq.rfl, if_true, hcomm]
  unfold abandon
  rfl

theorem giveBack_moves (hj : a.reloads[n]? = some job)
    (hphase : job.swap.phase = .awaitReady)
    (hunmarked : ∀ (newId : ℕ) (s : SheepSlot), job.swap.newId = some newId →
      a.sheep[newId]? = some s → s.entry.reload ≠ .replacement) :
    Moves c ⟨x, a⟩ ⟨x, (a.modifySlot job.swap.oldId SheepSlot.restore).dropJob n⟩ := by
  unfold modifySlot
  split
  · next s hs => exact .single (.restore hj hphase hs hunmarked)
  · next hgone =>
    refine .single (.drop n (fun job' newId s hj' hnew hs => ?_) fun job' hj' => ?_)
    · rw [hj] at hj'
      exact hunmarked newId s (Option.some.inj hj' ▸ hnew) hs
    · rw [hj] at hj'
      rw [← Option.some.inj hj']
      exact Or.inr (Or.inr (Or.inl hgone))

/-- A delete that reaches a slot writes the same claim whatever half of a
swap the slot is. -/
theorem claimDelete_eq (id : ℕ) (s : SheepSlot) :
    ∃ (m : Option PendingManual) (events : List Effect), ∀ (b : Actor) (r : ReloadState),
      (b.setSlot id { s.setReload r with pendingDelete := true }).claimManual id
        ⟨.delete, .operator⟩ .stop = { b with
          sheep := b.sheep.insert id { s.setReload r with manual := m, pendingDelete := true }
          trace := events ++ b.trace } := by
  have hget : ∀ (b : Actor) (r : ReloadState),
      (b.setSlot id { s.setReload r with pendingDelete := true }).sheep[id]? =
        some { s.setReload r with pendingDelete := true } := by
    intro b r
    simp [setSlot]
  cases hm : s.manual with
  | none =>
    refine ⟨some ⟨.delete, .operator⟩, (s.ctl.toList.map fun t => .killed t
      (LadderCap.stop.of s.entry.spec)) ++ [.claimed id ⟨.delete, .operator⟩ .stop],
      fun b r => ?_⟩
    rw [claimManual_of_unclaimed (hget b r) hm]
    simp [setSlot, SheepSlot.setReload]
  | some held =>
    by_cases hd : held.origin = .automatic
    · refine ⟨some ⟨.delete, .operator⟩, [.claimed id ⟨.delete, .operator⟩ .stop], fun b r => ?_⟩
      rw [claimManual_of_displaced (hget b r) hm hd rfl]
      simp [setSlot, SheepSlot.setReload]
    · refine ⟨some held, [], fun b r => ?_⟩
      rw [claimManual_of_held (hget b r) hm (by simp [hd])]
      simp [setSlot, SheepSlot.setReload, ← hm]

theorem abandon_eq (newId : ℕ) (s : SheepSlot) :
    ∃ (t : SheepSlot) (events : List Effect), t.entry.reload = .none ∧
      ∀ b : Actor, b.sheep[newId]? = some s → b.abandon (some newId) = { b with
        sheep := b.sheep.insert newId t
        trace := events ++ b.trace } := by
  by_cases hidle : s.ctl.isNone = true
  · refine ⟨s.setReload .none, [], rfl, fun b hb => ?_⟩
    simp [abandon, hb, hidle, setSlot]
  · obtain ⟨m, events, hclaim⟩ := claimDelete_eq newId s
    refine ⟨{ s.setReload .none with manual := m, pendingDelete := true }, events, rfl,
      fun b hb => ?_⟩
    simp only [abandon, hb, hidle, Bool.false_eq_true, if_false]
    exact hclaim b .none

/-- The replacement of an aborted swap is asked to go, and unmarked. -/
theorem abandon_moves (h : Inv x a) (hj : a.reloads[n]? = some job)
    (hnew : job.swap.newId = some newId) (hs : a.sheep[newId]? = some s)
    (hwho : c.Uncommitted newId) : Moves c ⟨x, a⟩ ⟨x, a.abandon (some newId)⟩ := by
  have hne : ∀ (m : String) (job' : ReloadJob), a.reloads[m]? = some job' →
      job'.swap.oldId ≠ newId := fun m job' hj' => oldId_ne_newId h hj hnew hs hj'
  have hmark : ∀ q, s.entry.reload ≠ .drainee q :=
    fun q => (h.jobs n job hj).new_mark newId s q hnew hs
  unfold abandon
  simp only [hs]
  split
  · next hidle =>
    exact .single (.unmark hs hne hmark fun _ _ _ _ _ _ => Or.inr (by simpa using hidle))
  · next hlive =>
    have hlive : s.ctl.isSome = true := Option.isSome_iff_ne_none.2 (by simpa using hlive)
    -- the delete comes first: from there on the instance is one that leaves
    have hdel : Moves c ⟨x, a⟩ ⟨x, (a.setSlot newId { s with pendingDelete := true }).claimManual
        newId ⟨.delete, .operator⟩ .stop⟩ := claimDelete_moves hs hlive (Or.inr (Or.inr hwho))
    obtain ⟨m, events, hclaim⟩ := claimDelete_eq newId s
    have hkept := hclaim a s.entry.reload
    change (a.setSlot newId { s with pendingDelete := true }).claimManual _ _ _ = _ at hkept
    rw [hkept] at hdel
    rw [hclaim a .none]
    refine hdel.tail ?_
    have hget : (a.sheep.insert newId
        { s with manual := m, pendingDelete := true })[newId]? =
          some { s with manual := m, pendingDelete := true } := by simp
    have hunmark : Move c ⟨x, { a with
        sheep := a.sheep.insert newId { s with manual := m, pendingDelete := true }
        trace := events ++ a.trace }⟩ ⟨x, _⟩ :=
      .unmark hget hne hmark fun _ _ _ _ _ _ => Or.inl rfl
    simpa [setSlot, SheepSlot.setReload] using hunmark

/-- The drainee of an aborted swap is given back before its replacement is
asked to go, or after. -/
theorem abandon_giveBack {oldId : ℕ} (hne : newId ≠ oldId) (n : String) (a : Actor) :
    ((a.modifySlot oldId SheepSlot.restore).dropJob n).abandon (some newId) =
      ((a.abandon (some newId)).modifySlot oldId SheepSlot.restore).dropJob n := by
  have hget : ((a.modifySlot oldId SheepSlot.restore).dropJob n).sheep[newId]? = a.sheep[newId]? :=
    (Frame.modifySlot oldId _ a).sheep newId hne
  cases hs : a.sheep[newId]? with
  | none =>
    have hnone : ∀ b : Actor, b.sheep[newId]? = none → b.abandon (some newId) = b :=
      fun b hb => by simp [abandon, hb]
    rw [hnone _ (hget.trans hs), hnone a hs]
  | some s =>
    obtain ⟨t, events, -, ht⟩ := abandon_eq newId s
    rw [ht _ (hget.trans hs), ht a hs]
    cases ho : a.sheep[oldId]? with
    | none => simp [modifySlot, dropJob, ho, hne.symm]
    | some u =>
      simp [modifySlot, setSlot, dropJob, ho, hne.symm, Table.insert_comm _ _ _ hne]

/-- `abort_reload` as moves, of an uncommitted swap. -/
theorem abortReload_moves (h : Inv x a) (hj : a.reloads[n]? = some job)
    (hphase : job.swap.phase = .awaitReady)
    (hwho : ∀ id, job.swap.newId = some id → c.Uncommitted id) :
    Moves c ⟨x, a⟩ ⟨x, a.abortReload n⟩ := by
  rw [abortReload_eq hj hphase]
  cases hnew : job.swap.newId with
  | none => exact giveBack_moves hj hphase (by simp [hnew])
  | some newId =>
    have hne : newId ≠ job.swap.oldId := by
      rintro rfl
      exact (h.jobs n job hj).distinct hnew
    rw [abandon_giveBack hne]
    cases hs : a.sheep[newId]? with
    | none =>
      have hnone : a.abandon (some newId) = a := by simp [abandon, hs]
      rw [hnone]
      refine giveBack_moves hj hphase fun newId' t hnew' ht => ?_
      obtain rfl := Option.some.inj (hnew.symm.trans hnew')
      rw [hs] at ht
      cases ht
    | some s =>
      have hgone : Moves c ⟨x, a⟩ ⟨x, a.abandon (some newId)⟩ :=
        abandon_moves h hj hnew hs (hwho newId hnew)
      obtain ⟨t, events, hreload, ht⟩ := abandon_eq newId s
      rw [ht a hs] at hgone ⊢
      refine hgone.trans (giveBack_moves hj hphase fun newId' t' hnew' ht' => ?_)
      obtain rfl := Option.some.inj (hnew.symm.trans hnew')
      rw [Table.get_insert, if_pos rfl] at ht'
      rw [← Option.some.inj ht', hreload]
      simp

/-! ## Reports -/

/-- `reload_ready_result` as moves: the replacement of a job, still
starting. -/
theorem reloadReadyResult_moves (h : Inv .none a) (hs : a.sheep[newId]? = some s)
    (hr : s.entry.reload = .replacement) (hst : s.entry.status = .starting)
    (hup : a.shuttingDown = false) (hbefore : c.before.reloads = a.reloads) (readiness : Readiness)
    (hready : readiness = .ready → c.ReportsReady newId ∧ .ready newId ∈ a.trace)
    (hq : ∀ (n : String) (job : ReloadJob), a.reloads[n]? = some job →
      ∀ id ∈ job.queue, c.Queued n id) :
    Moves c ⟨.none, a⟩ ⟨.none, a.reloadReadyResult c.world newId readiness⟩ := by
  obtain ⟨job, hfound, hj, hnew, hphase⟩ := reloadOf_replacement h hs hr hup
  have hctl := (h.marks.marked newId s hs hr (by simp)).1
  unfold reloadReadyResult
  simp only [hfound]
  cases readiness with
  | timedOut =>
    simp only [hj]
    split
    · next hold =>
      exact abortReload_moves h hj (hphase hst hold) fun id hid =>
        ⟨s.name, job, hbefore ▸ hj, hphase hst hold, hid⟩
    · next hgone =>
      have hend : Moves c ⟨.none, a⟩ ⟨.none, (a.dropJob s.name).clearReload newId⟩ :=
        endSwap_moves h hj hnew (Or.inr (Or.inr (by simpa using hgone)))
      have hs' : ((a.dropJob s.name).clearReload newId).sheep[newId]? =
          some (s.setReload .none) := by
        simp [clearReload, modifySlot, dropJob, setSlot, hs]
      refine hend.trans ?_
      simp only [modifySlot, hs']
      exact .single (.parkFailed hs' hctl)
  | ready =>
    obtain ⟨hrep, hheard⟩ := hready rfl
    have honline : Move c ⟨.none, a⟩ ⟨.none, _⟩ := .online hs hst hup fun _ => hrep
    have heq : (a.setStatus newId .online).wentOnline newId =
        a.setSlot newId { s.setStatus .online with readyFailed := false } := by
      simp [Actor.setStatus, hs, wentOnline, modifySlot, setSlot]
    have hs' : (a.setSlot newId { s.setStatus .online with readyFailed := false }).sheep[newId]? =
        some { s.setStatus .online with readyFailed := false } := by
      simp [setSlot]
    rw [heq]
    exact .head honline (beginDrain_moves (honline.inv h) hj hnew hs' rfl hrep hheard
      (hq s.name job hj))

/-- `handle_reload_verified` as moves. -/
theorem handleReloadVerified_moves (h : Inv .none a) (hbefore : c.before = a)
    (v : VerifyWait) (readiness : Readiness) (hmsg : c.msg = .reloadVerified v readiness) :
    Moves c ⟨.none, a⟩ ⟨.none, a.handleReloadVerified c.world v.name v.newId readiness⟩ := by
  unfold handleReloadVerified
  split
  · exact .refl
  · next job hj =>
    split
    · exact .refl
    · next hcond =>
      obtain ⟨hnew, hphase⟩ : job.swap.newId = some v.newId ∧ job.swap.phase = .verify := by
        simpa [not_or] using hcond
      have hver : c.Verifies v readiness := ⟨hmsg, job, hbefore ▸ hj, hnew, hphase⟩
      have hpast : a.Past job.swap := Or.inr (Or.inl hphase)
      have hend : Moves c ⟨.none, a⟩ ⟨.none, (a.dropJob v.name).clearReload v.newId⟩ :=
        endSwap_moves h hj hnew hpast
      cases hs : a.sheep[v.newId]? with
      | none =>
        have hgone : c.VerifiesGone := ⟨v, readiness, hver, hbefore ▸ hs⟩
        have hs' : ((a.dropJob v.name).clearReload v.newId).sheep[v.newId]? = none := by
          simp [clearReload, modifySlot, dropJob, hs]
        cases readiness with
        | ready =>
          simp only [commitSwapSuccess, hs']
          exact hend.tail (.panic _ hgone)
        | timedOut =>
          simp only [Actor.setStatus, hs', modifySlot, Actor.panic]
          exact hend.tail (.panic _ hgone)
      | some s =>
        cases readiness with
        | ready =>
          exact moveOn_moves h hj hnew hpast hs fun id hid => Or.inr ⟨job, hbefore ▸ hj, hid⟩
        | timedOut =>
          have hs' : ((a.dropJob v.name).clearReload v.newId).sheep[v.newId]? =
              some (s.setReload .none) := by
            simp [clearReload, modifySlot, dropJob, setSlot, hs]
          have hdemote : Move c ⟨.none, (a.dropJob v.name).clearReload v.newId⟩ ⟨.none, _⟩ :=
            .demote hs' (fun hctl => ⟨v, hver, s, hbefore ▸ hs, hctl⟩)
              ⟨v, hver, rfl⟩ (by simp [SheepSlot.setReload])
          refine hend.tail ?_
          simpa [Actor.setStatus, hs', modifySlot, setSlot] using hdemote

/-- `handle_reload_deadline` as moves. -/
theorem handleReloadDeadline_moves (h : Inv .none a) (hbefore : c.before = a) (n : String)
    (stamp : ℕ) :
    Moves c ⟨.none, a⟩ ⟨.none, a.handleReloadDeadline n stamp⟩ := by
  unfold handleReloadDeadline
  split
  · exact .refl
  · next job hj =>
    have hjob := h.jobs n job hj
    split
    · exact .refl
    · cases hphase : job.swap.phase with
      | drainFirst => exact endDrain_moves h hj (hjob.phase.2 hphase)
      | awaitReady =>
        exact abortReload_moves h hj hphase fun id hid => ⟨n, job, hbefore ▸ hj, hphase, hid⟩
      | drainOld | verify =>
        dsimp only
        cases hnew : job.swap.newId with
        | none =>
          rw [hjob.phase.1 hnew] at hphase
          cases hphase
        | some newId => exact endSwap_moves h hj hnew (by simp [Past, hphase])

theorem clearReload_reloads (id : ℕ) (a : Actor) : (a.clearReload id).reloads = a.reloads :=
  (Frame.modifySlot id _ a).reloads

/-- An aborted swap's job is gone, and no other; the flock and the trace are
written, and nothing else. -/
theorem abortReload_form (n : String) (a : Actor) : ∃ sheep trace,
    a.abortReload n = { a with sheep := sheep, reloads := a.reloads.erase n, trace := trace } := by
  have hmodify : ∀ (id : ℕ) (f : SheepSlot → SheepSlot) (b : Actor),
      ∃ sheep, b.modifySlot id f = { b with sheep := sheep } := by
    intro id f b
    unfold modifySlot
    split <;> exact ⟨_, rfl⟩
  have hassert : ∀ (holds : Bool) (message : String) (b : Actor),
      ∃ trace, b.debugAssert holds message = { b with trace := trace } := by
    intro holds message b
    unfold debugAssert
    split <;> exact ⟨_, rfl⟩
  unfold abortReload
  split
  · next hj =>
    refine ⟨a.sheep, a.trace, ?_⟩
    rw [Table.erase_self hj]
  · next job _ =>
    dsimp only
    obtain ⟨trace, ha⟩ := hassert (job.swap.phase == .awaitReady)
      "abort_reload: a committed swap has no old instance to go back to" (a.dropJob n)
    obtain ⟨sheep, hm⟩ := hmodify job.swap.oldId SheepSlot.restore { a.dropJob n with trace := trace }
    rw [ha, hm]
    split
    · exact ⟨_, _, rfl⟩
    · split
      · exact ⟨_, _, rfl⟩
      · split
        · exact ⟨_, _, rfl⟩
        · exact claimManual_form _ _ _ _

theorem abortReload_reloads (n : String) (a : Actor) :
    (a.abortReload n).reloads = a.reloads.erase n := by
  obtain ⟨_, _, e⟩ := abortReload_form n a
  rw [e]

theorem abortReload_timers (n : String) (a : Actor) : (a.abortReload n).timers = a.timers := by
  obtain ⟨_, _, e⟩ := abortReload_form n a
  rw [e]

/-- A watchdog whose report has been handled bounds no job any more. -/
theorem handleReloadDeadline_unwatched (h : Inv .none a) (n : String) (stamp : ℕ) {m : String}
    (hj : (a.handleReloadDeadline n stamp).reloads[m]? = some job) :
    (⟨m, job.deadline⟩ : Watchdog) ≠ ⟨n, stamp⟩ := by
  rintro e
  obtain ⟨rfl, rfl⟩ := Watchdog.mk.inj e
  unfold handleReloadDeadline at hj
  split at hj
  · next hnone =>
    rw [hnone] at hj
    cases hj
  · next job' hj' =>
    split at hj
    · next hne =>
      rw [hj'] at hj
      exact hne (by rw [Option.some.inj hj])
    · have hjob := h.jobs m job' hj'
      split at hj
      · simp [clearReload_reloads, dropJob] at hj
      · simp [abortReload_reloads] at hj
      all_goals
        next hphase =>
        split at hj
        · next hnew =>
          rw [hjob.phase.1 hnew] at hphase
          cases hphase
        · simp [clearReload_reloads, dropJob] at hj

/-! ## Starting a reload -/

theorem Queueable.moves {y : Hole} {b : Actor} (hq : Queueable c a n queue)
    (hm : Moves c ⟨x, a⟩ ⟨y, b⟩) : Queueable c b n queue where
  queued := hq.queued
  nodup := hq.nodup
  lt := fun id hid => (hq.lt id hid).trans_le hm.names.1
  name := by
    intro id hid t ht
    obtain ⟨s, hs, e, -⟩ := hm.names.2 id t (hq.lt id hid) ht
    rw [e]
    exact hq.name id hid s hs

theorem spawnReplacement_reloads (w : World) (oldId : ℕ) (mode : ReloadMode) (a : Actor) :
    (a.spawnReplacement w oldId mode).2.reloads = a.reloads := by
  unfold spawnReplacement
  split
  · rfl
  · split
    · rfl
    · split
      · rfl
      · dsimp only
        split
        · rfl
        · split
          · rfl
          · split <;> rfl

theorem armReloadDeadline_reloads {m : String} (hm : m ≠ n) (id : ℕ) (a : Actor) :
    (a.armReloadDeadline n id).reloads[m]? = a.reloads[m]? := by
  unfold armReloadDeadline
  split
  · rfl
  · split
    · rfl
    · simp [putJob, hm]

/-- A reload of one app leaves every other app's alone. -/
theorem advanceReload_reloads {m : String} (hm : m ≠ n) (queue : List ℕ) :
    (a.advanceReload w n queue).reloads[m]? = a.reloads[m]? := by
  induction queue with
  | nil => simp [advanceReload, dropJob, hm]
  | cons oldId queue ih =>
    unfold advanceReload
    split
    · simp [dropJob, hm]
    · split
      · exact ih
      · split
        · exact ih
        · split
          · unfold beginSerialDrain drain
            dsimp only
            rw [(Frame.claimManual _ _ _ _).reloads]
            dsimp only
            rw [armReloadDeadline_reloads hm]
            simp [putJob, setSlot, hm]
          · have hsp := spawnReplacement_reloads w oldId .overlap a
            split
            · next he =>
              rw [he] at hsp
              rw [armReloadDeadline_reloads hm]
              simp only [putJob, Table.get_insert, if_neg hm]
              rw [hsp]
            · next he =>
              rw [he] at hsp
              simp only [dropJob, Table.get_erase, if_neg hm]
              rw [hsp]

theorem reloadApps_moves {queueOf : String → List ℕ} {names : List String} (hnd : names.Nodup)
    (h : Inv .none a) (hj : ∀ m ∈ names, a.reloads[m]? = none)
    (hq : ∀ m ∈ names, Queueable c a m (queueOf m)) :
    Moves c ⟨.none, a⟩
      ⟨.none, names.foldl (fun a m => a.advanceReload c.world m (queueOf m)) a⟩ := by
  induction names generalizing a with
  | nil => exact .refl
  | cons m names ih =>
    obtain ⟨hm, hnd⟩ := List.nodup_cons.1 hnd
    have hone : Moves c ⟨.none, a⟩ ⟨.none, a.advanceReload c.world m (queueOf m)⟩ :=
      advanceReload_moves h (hj m List.mem_cons_self) (hq m List.mem_cons_self)
    refine hone.trans (ih hnd (hone.inv h) (fun m' hm' => ?_) fun m' hm' => ?_)
    · have hne : m' ≠ m := fun e => hm (e ▸ hm')
      rw [advanceReload_reloads hne]
      exact hj m' (List.mem_cons_of_mem _ hm')
    · exact (hq m' (List.mem_cons_of_mem _ hm')).moves hone

theorem nodup_named (selector : ProcessSelector) :
    (((a.matchingIds selector).filterMap fun id =>
      (a.sheep[id]?).map fun slot => (id, slot)).map Prod.fst).Nodup := by
  rw [List.map_filterMap]
  refine List.Nodup.filterMap ?_ (nodup_matchingIds selector)
  intro id id' j hj hj'
  simp only [Option.map_map, Option.mem_def, Option.map_eq_some_iff, Function.comp_apply] at hj hj'
  obtain ⟨_, -, rfl⟩ := hj
  obtain ⟨_, -, rfl⟩ := hj'
  rfl

/-- `handle_reload` as moves. -/
theorem handleReload_moves (h : Inv .none a) (hbefore : c.before = a)
    {selector : ProcessSelector} (hmsg : c.msg = .command (.reload selector)) :
    Moves c ⟨.none, a⟩ ⟨.none, a.handleReload c.world selector⟩ := by
  unfold handleReload
  dsimp only
  split
  · exact .single (.answer _ (by simp))
  · split
    · exact .single (.answer _ (by simp))
    · split
      · exact .single (.answer _ (by simp))
      · next hfree =>
        have hnamed : ∀ {id s}, (id, s) ∈ ((a.matchingIds selector).filterMap fun id =>
            (a.sheep[id]?).map fun slot => (id, slot)) →
            id ∈ a.matchingIds selector ∧ a.sheep[id]? = some s := by
          intro id s hmem
          obtain ⟨j, hj, he⟩ := List.mem_filterMap.1 hmem
          obtain ⟨t, ht, he⟩ := Option.map_eq_some_iff.1 he
          obtain ⟨rfl, rfl⟩ := Prod.mk.inj he
          exact ⟨hj, ht⟩
        have hidle : ∀ m ∈ ((((a.matchingIds selector).filterMap fun id =>
            (a.sheep[id]?).map fun slot => (id, slot)).filter fun entry =>
            reloadEligible entry.2).map fun entry => entry.2.name).dedup.insertionSort (· ≤ ·),
            a.reloads[m]? = none := by
          intro m hm
          rw [List.mem_insertionSort, List.mem_dedup, List.mem_map] at hm
          obtain ⟨e, he, rfl⟩ := hm
          have hfr := List.find?_eq_none.1 hfree e (List.mem_filter.1 he).1
          simpa using hfr
        refine .head (.answer _ (by simp)) (reloadApps_moves ?_ (h.answer _) hidle ?_)
        · exact (List.perm_insertionSort _ _).nodup_iff.2 (List.nodup_dedup _)
        · intro m hm
          have hmem : ∀ id ∈ (((((a.matchingIds selector).filterMap fun id =>
              (a.sheep[id]?).map fun slot => (id, slot)).filter fun entry =>
              reloadEligible entry.2).filter fun entry => entry.2.name == m).map fun entry =>
              (entry.2.entry.inst, entry.1)).insertionSort
                (fun x y => x.1 < y.1 ∨ (x.1 = y.1 ∧ x.2 ≤ y.2)) |>.map Prod.snd,
              id ∈ a.matchingIds selector ∧ ∃ s, a.sheep[id]? = some s ∧ s.name = m := by
            intro id hid
            obtain ⟨e, he, rfl⟩ := List.mem_map.1 hid
            rw [List.mem_insertionSort, List.mem_map] at he
            obtain ⟨⟨j, s⟩, he, rfl⟩ := he
            obtain ⟨he, hm⟩ := List.mem_filter.1 he
            obtain ⟨hmatch, hs⟩ := hnamed (List.mem_filter.1 he).1
            exact ⟨hmatch, s, hs, by simpa using hm⟩
          refine ⟨fun id hid => Or.inl ⟨selector, hmsg, hbefore ▸ (hmem id hid).1,
            hbefore ▸ hidle m hm⟩, ?_, fun id hid => ?_, fun id hid t ht => ?_⟩
          · rw [((List.perm_insertionSort _ _).map Prod.snd).nodup_iff, List.map_map]
            exact (nodup_named selector).sublist
              (List.filter_sublist.trans List.filter_sublist |>.map _)
          · obtain ⟨-, s, hs, -⟩ := hmem id hid
            exact h.lt_nextId hs
          · obtain ⟨-, s, hs, hm⟩ := hmem id hid
            have ht : a.sheep[id]? = some t := ht
            rw [hs] at ht
            exact Option.some.inj ht ▸ hm

end Actor

end Supervisor

end Shep
