import Shep.Supervisor.Handover
import Shep.Supervisor.Helpers.Hushed
import Shep.Supervisor.Model.Departure

/-!
# Supervisor — nothing is lost on the way out

`Describes` is what a blob owes the flock at the moment of the exec.
The snapshot is one message of a loop that goes on: a child started after
it is in no row, one reaped after it leaves its pid in one, and so does one
reaped before it whose exit the loop has not read yet. **`blob_describes`**
says that these are the only ways: while the blob is on its way no child is
reaped and the loop reads quiet messages, and no exit is unread when the
snapshot is taken.
-/

namespace Shep

namespace Supervisor

open Shep.Table

/-- The rows of a blob are the flock's, in what a client can have been told. -/
structure Handover.Tells (blob : Handover) (a : Actor) : Prop where
  rows : ∀ row ∈ blob.sheep, ∃ s, a.sheep[row.id]? = some s ∧ row.name = s.name ∧
    row.pid = s.entry.pid ∧ (row.status = .stopped ↔ s.entry.status = .stopped) ∧
    (row.disabled = some true ↔ s.name ∈ a.disabled)
  listed : ∀ id s, a.Carries id s → ∃ row ∈ blob.sheep, row.id = id
  nodup : (blob.sheep.map CarriedSheep.id).Nodup
  nextId : blob.counters.nextId = a.nextId

namespace Image

/-- **What a blob owes the flock at the exec**: every live child in exactly
one row, under its pid; no row with the pid of a child that was waited
for; every registered id below the carried counter; and what a client was
told of a stop, a delete or a disable. -/
structure Describes (i : Image) (blob : Handover) : Prop where
  carried : ∀ task ∈ i.living, ∃ row ∈ blob.sheep, row.id = task.id ∧ row.pid = some task.pid ∧
    ∀ row' ∈ blob.sheep, row'.pid = some task.pid → row' = row
  living : ∀ row ∈ blob.sheep, ∀ pid, row.pid = some pid →
    ∃ task ∈ i.living, task.id = row.id ∧ task.pid = pid
  ids : ∀ (id : ℕ) (s : SheepSlot), i.actor.sheep[id]? = some s → id < blob.counters.nextId
  listed : ∀ id s, i.actor.Carries id s → ∃ row ∈ blob.sheep, row.id = id
  stopped : ∀ row ∈ blob.sheep, ∀ s, i.actor.sheep[row.id]? = some s →
    s.entry.status = .stopped → row.status = .stopped
  deleted : ∀ row ∈ blob.sheep, ∃ s, i.actor.sheep[row.id]? = some s ∧ s.name = row.name
  disabled : ∀ row ∈ blob.sheep, row.name ∈ i.actor.disabled → row.disabled = some true

/-- **When the blob stays true**: the loop reads only quiet messages and no
child is reaped while the blob is on its way, and every exit reaped before
the snapshot has been read. -/
def Hushed (i : Image) : Happening → Prop
  | .turn _ msg => i.departure.carrying.isSome = true → i.actor.Quiet msg
  | .reap _ => i.departure.carrying = none
  | .snapshot _ _ => ∀ task ∈ i.actor.tasks, task.serial ∉ i.reaped
  | _ => True

end Image

variable {a b : Actor} {blob : Handover} {i : Image}

/-! ## The blob and the loop -/

theorem Shepherd.snapshot_tells (d : Shepherd) : d.handleHandoverSnapshot.Tells d.actor where
  rows := by
    intro row hrow
    obtain ⟨id, s, hs, rfl⟩ := Shepherd.mem_snapshot.1 hrow
    refine ⟨s, hs.1, rfl, rfl, Iff.rfl, ?_⟩
    have hmark : d.actor.isDisabledId id = d.actor.isDisabled s.name := by
      rw [Actor.isDisabledId, hs.1]
    show some (d.actor.isDisabledId id) = some true ↔ _
    rw [hmark, Option.some_inj]
    exact List.contains_iff_mem
  listed := fun id s hs => ⟨_, Shepherd.mem_snapshot.2 ⟨id, s, hs, rfl⟩, rfl⟩
  nodup := d.snapshot_nodup
  nextId := rfl

/-- What a blob tells of a flock it tells of one that has not been
disturbed. -/
theorem Handover.Tells.undisturbed (h : blob.Tells a) (hab : a.Undisturbed b) : blob.Tells b where
  rows := by
    intro row hrow
    obtain ⟨s, hs, hname, hpid, hstopped, hdisabled⟩ := h.rows row hrow
    obtain ⟨s', hs', hberth⟩ := hab.slot' hs
    simp only [SheepSlot.berth, Prod.mk.injEq] at hberth
    obtain ⟨hn, -, hp, hst, -⟩ := hberth
    refine ⟨s', hs', hname.trans hn.symm, hpid.trans hp.symm, ?_, ?_⟩
    · rw [hstopped, ← beq_iff_eq, ← hst, beq_iff_eq]
    · rw [hdisabled, hn]
      exact (hab.disabled row.id s hs).symm
  listed := by
    rintro id s' ⟨hs', hpark⟩
    obtain ⟨s, hs, hberth⟩ := hab.slot hs'
    refine h.listed id s ⟨hs, ?_⟩
    simp only [SheepSlot.berth, Prod.mk.injEq] at hberth
    obtain ⟨hn, -, -, hst, hdog⟩ := hberth
    have hmark : a.isDisabled s.name = b.isDisabled s'.name := by
      rw [Bool.eq_iff_iff, ← hn]
      exact List.contains_iff_mem.trans ((hab.disabled id s hs).symm.trans
        List.contains_iff_mem.symm)
    rw [← hpark, Actor.isParkedDog, Actor.isParkedDog, hst, hdog, hmark]
  nodup := h.nodup
  nextId := h.nextId.trans hab.nextId.symm

/-- A blob that tells a flock none of whose exits is unread describes it. -/
theorem Handover.Tells.describes (h : blob.Tells i.actor) (hinv : Inv .none i.actor)
    (hread : ∀ task ∈ i.actor.tasks, task.serial ∉ i.reaped) (hpids : i.PidsApart) :
    i.Describes blob := by
  have hliving : i.living = i.actor.tasks := by
    refine List.filter_eq_self.2 fun task ht => ?_
    simpa using hread task ht
  have hrun : ∀ row ∈ blob.sheep, ∀ pid, row.pid = some pid →
      ∃ task ∈ i.living, task.id = row.id ∧ task.pid = pid := by
    intro row hrow pid hp
    obtain ⟨s, hs, -, hpid, -⟩ := h.rows row hrow
    have hctl : s.ctl.isSome = true := by
      rw [← (hinv.wellFormed hs).pid, ← hpid, hp]
      rfl
    obtain ⟨k, hk⟩ := Option.isSome_iff_exists.1 hctl
    obtain ⟨task, ht, -, hid⟩ := hinv.tasks.running row.id s k hs hk
    obtain ⟨s', hs', -, -, hpid'⟩ := hinv.tasks.owned task ht
    rw [hid, hs] at hs'
    obtain rfl := Option.some.inj hs'
    refine ⟨task, hliving ▸ ht, hid, ?_⟩
    exact Option.some.inj (hpid'.symm.trans (hpid.symm.trans hp))
  constructor
  case carried =>
    intro task ht
    obtain ⟨s, hs, hctl, -, hpid⟩ := hinv.tasks.owned task (hliving ▸ ht)
    have hup : s.entry.status ≠ .stopped := by
      intro he
      simpa [he] using (hinv.wellFormed hs).status (by simp [hctl])
    have hcarried : i.actor.Carries task.id s := ⟨hs, by simp [Actor.isParkedDog, hup]⟩
    obtain ⟨row, hrow, hid⟩ := h.listed task.id s hcarried
    have hrowpid : row.pid = some task.pid := by
      obtain ⟨s', hs', -, hp, -⟩ := h.rows row hrow
      rw [hid, hs] at hs'
      rw [hp, ← Option.some.inj hs', hpid]
    refine ⟨row, hrow, hid, hrowpid, fun row' hrow' hp' => ?_⟩
    -- a second row with the pid is a second life with it
    obtain ⟨task', ht', hid', hpid'⟩ := hrun row' hrow' task.pid hp'
    have hsame : task' = task := List.inj_on_of_nodup_map hpids ht' ht hpid'
    refine List.inj_on_of_nodup_map h.nodup hrow' hrow ?_
    rw [hid, ← hid', hsame]
  case living => exact hrun
  case ids =>
    intro id s hs
    rw [h.nextId]
    exact (hinv.flock id s hs).1
  case listed => exact h.listed
  case stopped =>
    intro row hrow s hs hst
    obtain ⟨s', hs', -, -, hstopped, -⟩ := h.rows row hrow
    rw [hs] at hs'
    exact hstopped.2 (Option.some.inj hs' ▸ hst)
  case deleted =>
    intro row hrow
    obtain ⟨s, hs, hname, -⟩ := h.rows row hrow
    exact ⟨s, hs, hname.symm⟩
  case disabled =>
    intro row hrow hd
    obtain ⟨s, -, hname, -, -, hdisabled⟩ := h.rows row hrow
    exact hdisabled.2 (hname ▸ hd)

/-! ## Runs -/

/-- The blob a departure holds, before the exec and at it. -/
def Departure.Holds (d : Departure) (blob : Handover) : Prop :=
  d.carrying = some blob ∨ d = .replaced blob

theorem Departure.Holds.of_proceed {d : Departure} {e : Happening}
    (h : (d.proceed e).Holds blob) : d.Holds blob := by
  unfold Departure.proceed at h
  split at h
  · simp [Holds, carrying] at h
  · simpa [Holds, carrying] using h
  · simpa [Holds, carrying] using h
  · split at h
    · simpa [Holds, carrying] using h
    · simp [Holds, carrying] at h
  · split at h
    · simpa [Holds, carrying] using h
    · simp [Holds, carrying] at h
  · exact h

namespace Image

/-- The loop is sound, and the blob on its way tells its flock. -/
structure Faithful (i : Image) : Prop where
  inv : Inv .none i.actor
  pids : i.PidsApart
  tells : ∀ blob, i.departure.Holds blob → blob.Tells i.actor
  read : ∀ blob, i.departure.Holds blob → ∀ task ∈ i.actor.tasks, task.serial ∉ i.reaped

theorem faithful_boot (dogBinaries : List (String × String)) : (boot dogBinaries).Faithful where
  inv := Actor.inv_init dogBinaries
  pids := List.nodup_nil
  tells := by simp [Departure.Holds, boot, Departure.carrying]
  read := by simp [Departure.Holds, boot, Departure.carrying]

theorem Faithful.proceed (h : i.Faithful) (e : Happening) :
    Faithful { i with departure := i.departure.proceed e } where
  inv := h.inv
  pids := h.pids
  tells := fun blob hb => h.tells blob hb.of_proceed
  read := fun blob hb => h.read blob hb.of_proceed

/-- **One event.** -/
theorem Step.faithful {e : Happening} {i' : Image} (hstep : i.Step e i') (h : i.Faithful)
    (hhush : i.Hushed e) : i'.Faithful := by
  obtain ⟨hover, hadm, rfl, hpids⟩ := hstep
  have hcarrying : ∀ blob, i.departure.Holds blob → i.departure.carrying = some blob := by
    rintro blob (hc | hc)
    · exact hc
    · rw [hc] at hover
      cases hover
  cases e with
  | turn w msg =>
    have hinv' : Inv .none (i.actor.turn w msg) :=
      Actor.Step.inv (a := i.actor) (e := (w, msg)) ⟨hadm.1, hadm.2.1, rfl⟩ h.inv
    have hsame : ∀ blob, i.departure.Holds blob → i.actor.Undisturbed (i.actor.turn w msg) := by
      intro blob hb
      have hquiet : i.actor.Quiet msg := hhush (by rw [hcarrying blob hb]; rfl)
      exact hquiet.turn h.inv w
    refine ⟨hinv', hpids, fun blob hb => ?_, fun blob hb => ?_⟩
    · exact (h.tells blob hb).undisturbed (hsame blob hb)
    · show ∀ task ∈ (i.actor.turn w msg).tasks, task.serial ∉ i.reaped
      rw [(hsame blob hb).tasks]
      exact h.read blob hb
  | reap task =>
    have hnone : ∀ blob, ¬ i.departure.Holds blob := by
      intro blob hb
      have hc : i.departure.carrying = none := hhush
      rw [hcarrying blob hb] at hc
      cases hc
    exact ⟨h.inv, hpids, fun blob hb => absurd hb (hnone blob), fun blob hb => absurd hb (hnone blob)⟩
  | snapshot restartDue nextActionStamp =>
    refine ⟨h.inv, hpids, fun blob hb => ?_, fun _ _ => hhush⟩
    rcases hb with hb | hb
    · rw [← Option.some.inj hb]
      exact Shepherd.snapshot_tells ⟨i.actor, restartDue, nextActionStamp⟩
    · cases hb
  | hup | report _ | freeze | rehearse _ | exec _ => exact h.proceed _

end Image

/-- **The blob describes the flock at the exec**, in every run in which the
loop reads only quiet messages and no child is reaped between the snapshot
and the exec, and no reaped exit is unread at the snapshot. -/
theorem blob_describes {dogBinaries : List (String × String)} {h : List (Image × Happening)}
    (hr : Run Image.Step (.boot dogBinaries) h i) (hC : Meets Image.Hushed h)
    (hgone : i.departure = .replaced blob) : i.Describes blob := by
  have hfaithful : i.Faithful := hr.invariant hC (Image.faithful_boot dogBinaries)
    fun s e s' hs he hstep => hstep.faithful hs he
  exact (hfaithful.tells blob (.inr hgone)).describes hfaithful.inv
    (hfaithful.read blob (.inr hgone)) hfaithful.pids

/-! ## Departures written out -/

namespace Image

/-- An event that can be taken. -/
def Ready (i : Image) (e : Happening) : Prop :=
  i.departure.over = false ∧ i.Admits e ∧ (i.take e).PidsApart

instance (i : Image) (e : Happening) : Decidable (i.Ready e) :=
  inferInstanceAs (Decidable (_ ∧ i.Admits e ∧ _))

theorem Ready.step {e : Happening} (h : i.Ready e) : i.Step e (i.take e) :=
  ⟨h.1, h.2.1, rfl, h.2.2⟩

end Image

/-- The SIGHUP task, from the report of the pumps to the exec. -/
def outward : List Happening := [.report [], .freeze, .rehearse true, .exec true]

/-- A sheep is started, and the flock is listed while the blob is on its
way. -/
def departing : List Happening :=
  [.turn plain (.command (.start [{ name := "web" }] .allOrNothing [])), .hup,
    .snapshot (fun _ => none) 0, .turn plain (.command .list)] ++ outward

theorem blob_describes_departing : ∃ blob,
    (drive Image.take (.boot []) departing).departure = .replaced blob ∧
      (drive Image.take (.boot []) departing).Describes blob := by
  have hready : Drives Image.take Image.Ready (.boot []) departing := by decide +kernel
  have hgone : ((drive Image.take (.boot []) departing).departure.over) = true := by decide +kernel
  have hhush : Meets Image.Hushed (logged Image.take (.boot []) departing) := by
    intro p hp
    simp only [departing, outward, List.cons_append, List.nil_append, logged, List.mem_cons,
      List.not_mem_nil, or_false] at hp
    rcases hp with rfl | rfl | rfl | rfl | rfl | rfl | rfl | rfl
    · exact fun hc => by cases hc
    · trivial
    · exact fun task _ => List.not_mem_nil
    · exact fun _ => trivial
    all_goals trivial
  cases hd : (drive Image.take (.boot []) departing).departure with
  | replaced blob => exact ⟨blob, rfl, blob_describes (hready.run fun _ _ => Image.Ready.step) hhush hd⟩
  | settled | asked | described | reported | frozen | rehearsed | refused =>
    rw [hd] at hgone
    cases hgone

/-- A sheep is started after the snapshot. -/
def outrun : List Happening :=
  [.hup, .snapshot (fun _ => none) 0,
    .turn plain (.command (.start [{ name := "web" }] .allOrNothing []))] ++ outward

/-- A child started while the blob is on its way is in no row of it. -/
theorem blob_outrun : ∃ (h : List (Image × Happening)) (i : Image) (blob : Handover),
    Run Image.Step (.boot []) h i ∧ i.departure = .replaced blob ∧ ¬ i.Describes blob := by
  have hready : Drives Image.take Image.Ready (.boot []) outrun := by decide +kernel
  have hgone : (drive Image.take (.boot []) outrun).departure =
      .replaced ⟨[], ⟨0, 0, 0⟩, []⟩ := by decide +kernel
  have hlives : life 0 0 { name := "web" } .fresh ∈ (drive Image.take (.boot []) outrun).living := by
    decide +kernel
  refine ⟨_, _, _, hready.run fun _ _ => Image.Ready.step, hgone, fun hdescribes => ?_⟩
  obtain ⟨row, hrow, -⟩ := hdescribes.carried _ hlives
  cases hrow

end Supervisor

end Shep
