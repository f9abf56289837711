import Shep.Supervisor.Helpers.Places

/-!
# Supervisor — the exits of those on their way out

While no reload of its app is in flight, the exit of an instance that is
on its way out deregisters it and leaves everybody else alone
(`turn_leaves`). `Parts` is any number of such exits, and `parted` what
they come to: the instances that were not leaving, or have no exit to come.
-/

namespace Shep

namespace Supervisor

variable {w : World} {x : Hole} {a b : Actor} {name : String} {id : ℕ} {s : SheepSlot}

namespace Actor

/-! ## One exit -/

theorem jobWhere_eq_none {p : ReloadJob → Bool}
    (h : ∀ (n : String) (job : ReloadJob), a.reloads[n]? = some job → p job = false) :
    a.jobWhere p = none := by
  cases hw : a.jobWhere p with
  | none => rfl
  | some n =>
    obtain ⟨job, hj, hp⟩ := jobWhere_some hw
    rw [h n job hj] at hp
    cases hp

theorem settleExit_deletes {taken : SheepSlot} (hs : a.sheep[id]? = some s)
    (hdel : taken.pendingDelete = true) (hman : taken.manual.isSome = true)
    (outcome : ExitOutcome) (oomKilled : Bool) :
    (a.settleExit w id taken outcome oomKilled).sheep = a.sheep.erase id ∧
      (a.settleExit w id taken outcome oomKilled).reloads = a.reloads := by
  unfold settleExit
  simp only [hs, hdel, Bool.or_true, Bool.not_true, Bool.and_false, Bool.false_and]
  cases hstart : taken.entry.startedAt with
  | none => simp [settleDuplicate, resolvePending_eq, removeSlot]
  | some startedAt =>
    simp [decideOnExit, hman, settleDecision, resolvePending_eq, removeSlot]

/-- **The exit of an instance on its way out**, while no job names it. -/
theorem handleExited_leaves (hs : a.sheep[id]? = some s) (hleaves : s.Leaves)
    (hdoomed : s.pendingDelete = true → s.manual.isSome = true)
    (hfree : ∀ (n : String) (job : ReloadJob), a.reloads[n]? = some job → job.names id = false)
    (outcome : ExitOutcome) (oomKilled : Bool) :
    (a.handleExited w id outcome oomKilled).sheep = a.sheep.erase id ∧
      (a.handleExited w id outcome oomKilled).reloads = a.reloads := by
  have hnames : ∀ t : SheepSlot, (a.setSlot id t).reloadOf id = none :=
    fun t => jobWhere_eq_none hfree
  have huncommitted : ∀ t : SheepSlot, (a.setSlot id t).uncommittedSwapOf id = none := by
    refine fun t => jobWhere_eq_none fun n job hj => ?_
    simp [hfree n job hj]
  have hserial : ∀ t : SheepSlot, (a.setSlot id t).serialDrainOf id = none := by
    refine fun t => jobWhere_eq_none fun n job hj => ?_
    have hne : (job.swap.oldId == id) = false := by
      have hno := hfree n job hj
      simp only [ReloadJob.names, Bool.or_eq_false_iff] at hno
      exact hno.1
    simp [hne]
  unfold handleExited
  simp only [hs]
  cases hr : s.entry.reload with
  | drainee q =>
    simp only [huncommitted, reapDrainee, hserial, deregisterOnExit, get_setSlot]
    have hgone : ∀ (info : ProcessInfo),
        (((a.setSlot id (s.exited outcome)).removeSlot id).resolvePending id info).reloadOf id =
          none := by
      intro info
      rw [resolvePending_eq]
      exact hnames (s.exited outcome)
    unfold reapJob
    rw [hgone, resolvePending_eq]
    simp [removeSlot, setSlot]
  | replacement =>
    have hdel : s.pendingDelete = true := by
      refine hleaves.resolve_left ?_
      rintro ⟨q, hq⟩
      rw [hr] at hq
      cases hq
    have hclear : (a.setSlot id (s.exited outcome)).clearReload id =
        a.setSlot id ((s.exited outcome).setReload .none) := by
      simp [clearReload, modifySlot, setSlot]
    simp only [hclear, huncommitted, endOrphanedSwap, hnames]
    have hset := settleExit_deletes (w := w) (get_setSlot id ((s.exited outcome).setReload .none) a)
      hdel (hdoomed hdel) outcome oomKilled
    rw [hset.1, hset.2]
    simp [setSlot]
  | none =>
    have hdel : s.pendingDelete = true := by
      refine hleaves.resolve_left ?_
      rintro ⟨q, hq⟩
      rw [hr] at hq
      cases hq
    have hset := settleExit_deletes (w := w) (get_setSlot id (s.exited outcome) a)
      hdel (hdoomed hdel) outcome oomKilled
    rw [hset.1, hset.2]
    simp [setSlot]

theorem turn_inv (h : Inv .none a) {m : Msg} (hadm : a.admits m) (w : World) :
    Inv .none (a.turn w m) := by
  obtain ⟨b, hm, hb⟩ := turn_moves h hadm w
  have hi := hm.inv h
  rw [hb]
  exact ⟨hi.flock, hi.tasks, hi.jobs, hi.marks, hi.replies, hi.timers, hi.watchdogs⟩

/-- **An exit on the way out takes one instance off the flock.** -/
theorem turn_leaves (h : Inv .none a) {task : Task} (hs : a.sheep[task.id]? = some s)
    (hleaves : s.Leaves) (hidle : a.reloads[s.name]? = none) (w : World) (outcome : ExitOutcome)
    (oomKilled : Bool) :
    (a.turn w (.exited task outcome oomKilled)).sheep = a.sheep.erase task.id ∧
      (a.turn w (.exited task outcome oomKilled)).reloads = a.reloads := by
  refine handleExited_leaves (a := a.receive (.exited task outcome oomKilled)) hs hleaves
    (fun hd => ((h.wellFormed hs).doomed hd).1) (fun n job hj => ?_) outcome oomKilled
  cases hnames : job.names task.id with
  | false => rfl
  | true =>
    have hname : s.name = n := by
      rcases ReloadJob.names_iff.1 hnames with hold | hnew
      · exact h.name_of_named hs hj (Or.inl hold)
      · exact h.name_of_named hs hj (Or.inr (Or.inl hnew))
    rw [hname] at hidle
    exact absurd (hidle.symm.trans hj) (by simp)

end Actor

/-! ## All of them -/

namespace Actor

/-- An instance of `name` that is on its way out and has an exit to come. -/
def Going (a : Actor) (name : String) (id : ℕ) : Prop :=
  ∃ s, a.sheep[id]? = some s ∧ s.name = name ∧ s.Leaves ∧ s.ctl.isSome = true

/-- The loop handles the exit of an instance of `name` on its way out. -/
def Part (name : String) (a b : Actor) : Prop :=
  ∃ (w : World) (task : Task) (outcome : ExitOutcome) (oomKilled : Bool),
    task ∈ a.tasks ∧ a.Going name task.id ∧ b = a.turn w (.exited task outcome oomKilled)

/-- **The instances of `name` on their way out have exited**, one after
another in some order. -/
def Parted (name : String) (a b : Actor) : Prop :=
  Relation.ReflTransGen (Part name) a b ∧ ∀ id, ¬ b.Going name id

/-- What exits on the way out have made of the flock so far. -/
structure Thinned (name : String) (a b : Actor) : Prop where
  inv : Inv .none b
  idle : b.reloads[name]? = none
  rest : ∀ id, b.sheep[id]? = a.sheep[id]? ∨ b.sheep[id]? = none ∧ a.Going name id

theorem Thinned.refl (h : Inv .none a) (hidle : a.reloads[name]? = none) : Thinned name a a :=
  ⟨h, hidle, fun _ => Or.inl rfl⟩

theorem Thinned.part {c : Actor} (h : Thinned name a b) (hp : Part name b c) :
    Thinned name a c := by
  obtain ⟨w, task, outcome, oomKilled, htask, ⟨s, hs, rfl, hleaves, hlive⟩, rfl⟩ := hp
  obtain ⟨hsheep, hreloads⟩ := turn_leaves h.inv hs hleaves h.idle w outcome oomKilled
  have hadm : b.admits (.exited task outcome oomKilled) := htask
  refine ⟨turn_inv h.inv hadm w, by rw [hreloads]; exact h.idle, fun id => ?_⟩
  rw [hsheep, Table.get_erase]
  split
  · next e =>
    subst e
    refine Or.inr ⟨rfl, s, ?_, rfl, hleaves, hlive⟩
    rcases h.rest task.id with e | ⟨e, -⟩
    · exact e ▸ hs
    · rw [e] at hs
      cases hs
  · exact h.rest id

theorem Thinned.parts (h : Inv .none a) (hidle : a.reloads[name]? = none)
    (hp : Relation.ReflTransGen (Part name) a b) : Thinned name a b := by
  induction hp with
  | refl => exact .refl h hidle
  | tail _ hp ih => exact ih.part hp

/-- **Once they have exited**, the app's instances are those that had no
exit to come on their way out, as they were. -/
theorem Parted.get (h : Inv .none a) (hidle : a.reloads[name]? = none) (hp : Parted name a b)
    (id : ℕ) : b.sheep[id]? = some s ∧ s.name = name ↔
      a.sheep[id]? = some s ∧ s.name = name ∧ ¬ a.Going name id := by
  have hthin := Thinned.parts h hidle hp.1
  constructor
  · rintro ⟨hs, hname⟩
    have hsame : a.sheep[id]? = some s := by
      rcases hthin.rest id with e | ⟨e, -⟩
      · exact e ▸ hs
      · rw [e] at hs
        cases hs
    refine ⟨hsame, hname, fun ⟨t, ht, htn, hleaves, hlive⟩ => ?_⟩
    obtain rfl := Option.some.inj (hsame.symm.trans ht)
    exact hp.2 id ⟨s, hs, hname, hleaves, hlive⟩
  · rintro ⟨hs, hname, hstays⟩
    rcases hthin.rest id with e | ⟨-, hgoing⟩
    · exact ⟨e ▸ hs, hname⟩
    · exact absurd hgoing hstays

/-- They can all exit: each has a task in flight. -/
theorem exists_parted (h : Inv .none a) (hidle : a.reloads[name]? = none) (w : World) :
    ∃ b, Parted name a b := by
  have hall : ∀ (ids : List ℕ) (b : Actor), Thinned name a b →
      (∀ id, b.Going name id → id ∈ ids) →
      ∃ c, Relation.ReflTransGen (Part name) b c ∧ ∀ id, ¬ c.Going name id := by
    intro ids
    induction ids with
    | nil => exact fun b _ hids => ⟨b, .refl, fun id hid => by simpa using hids id hid⟩
    | cons id ids ih =>
      intro b hb hids
      by_cases hgoing : b.Going name id
      · obtain ⟨s, hs, hname, hleaves, hlive⟩ := hgoing
        obtain ⟨k, hk⟩ := Option.isSome_iff_exists.1 hlive
        obtain ⟨task, htask, -, rfl⟩ := hb.inv.tasks.running id s k hs hk
        have hpart : Part name b (b.turn w (.exited task ⟨some 0, none⟩ false)) :=
          ⟨w, task, _, _, htask, ⟨s, hs, hname, hleaves, hlive⟩, rfl⟩
        have hrest : ∀ j, (b.turn w (.exited task ⟨some 0, none⟩ false)).Going name j →
            j ∈ ids := by
          rintro j ⟨t, ht, htn, htl, htlive⟩
          rw [(turn_leaves hb.inv hs hleaves (hname ▸ hb.idle) w _ _).1, Table.get_erase] at ht
          split at ht
          · cases ht
          · next hne =>
            exact (List.mem_cons.1 (hids j ⟨t, ht, htn, htl, htlive⟩)).resolve_left hne
        obtain ⟨c, hc, hnone⟩ := ih _ (hb.part hpart) hrest
        exact ⟨c, .head hpart hc, hnone⟩
      · refine ih b hb fun j hj => (List.mem_cons.1 (hids j hj)).resolve_left ?_
        rintro rfl
        exact hgoing hj
  refine hall (a.sheep.toList.map Prod.fst) a (.refl h hidle) fun id ⟨s, hs, _⟩ => ?_
  exact List.mem_map.2 ⟨(id, s), Table.mem_toList.2 hs, rfl⟩

end Actor

end Supervisor

end Shep
