import Shep.Supervisor.Helpers.Turning

/-!
# Supervisor — slots with no process

`Settled` is what holds of a slot without a process while no post-drain
probe times out for a replacement that has none: it shows a status of
rest, nothing has claimed it, and no swap drains it. A swap only ever
begins on a running instance, which is where the last part comes from.
-/

namespace Shep

namespace Supervisor

/-- A status a slot with no process may show. -/
def ProcStatus.Rests (status : ProcStatus) : Prop :=
  status = .stopped ∨ status = .errored ∨ status = .waitingRestart

/-- What a slot with no process looks like. The one whose exit is being
handled has its status still to come. -/
structure SheepSlot.Idles (x : Hole) (id : ℕ) (s : SheepSlot) : Prop where
  manual : s.manual = none
  readyFailed : s.readyFailed = false
  status : x.Spares id → s.entry.status.Rests

/-- A swap's drainee: marked, and running until its exit is handled. -/
structure SheepSlot.Drains (x : Hole) (id : ℕ) (s : SheepSlot) : Prop where
  marked : ∃ q, s.entry.reload = .drainee q
  live : x.Spares id → s.ctl.isSome = true

/-- Slots with no process are at rest and unclaimed, and every drainee is
running and marked. -/
structure Settled (x : Hole) (sheep : Std.ExtTreeMap ℕ SheepSlot)
    (reloads : Std.ExtTreeMap String ReloadJob) : Prop where
  idle : ∀ (id : ℕ) (s : SheepSlot), sheep[id]? = some s → s.ctl = none → s.Idles x id
  drainee : ∀ (n : String) (job : ReloadJob) (s : SheepSlot), reloads[n]? = some job →
    sheep[job.swap.oldId]? = some s → s.Drains x job.swap.oldId
  taken : ∀ (n : String) (job : ReloadJob) (t : SheepSlot), reloads[n]? = some job →
    x = .exiting job.swap.oldId t → ∃ q, t.entry.reload = .drainee q

namespace Settled

variable {x : Hole} {sheep : Std.ExtTreeMap ℕ SheepSlot} {reloads : Std.ExtTreeMap String ReloadJob}
variable {id : ℕ} {s s' : SheepSlot} {n : String} {job job' : ReloadJob} {a : Actor}

theorem insert (h : Settled x sheep reloads) (hidle : s'.ctl = none → s'.Idles x id)
    (hdrain : ∀ (n : String) (job : ReloadJob), reloads[n]? = some job → job.swap.oldId = id →
      s'.Drains x id) : Settled x (sheep.insert id s') reloads where
  idle := by
    intro j t ht hctl
    rcases Table.of_insert ht with ⟨e, rfl⟩ | ⟨-, ht⟩
    · exact e ▸ hidle hctl
    · exact h.idle j t ht hctl
  drainee := by
    intro m job t hj ht
    rcases Table.of_insert ht with ⟨e, rfl⟩ | ⟨-, ht⟩
    · exact e ▸ hdrain m job hj e
    · exact h.drainee m job t hj ht
  taken := h.taken

theorem erase (h : Settled x sheep reloads) : Settled x (sheep.erase id) reloads where
  idle := by
    intro j t ht hctl
    obtain ⟨-, ht⟩ := Table.of_erase ht
    exact h.idle j t ht hctl
  drainee := by
    intro m job t hj ht
    obtain ⟨-, ht⟩ := Table.of_erase ht
    exact h.drainee m job t hj ht
  taken := h.taken

/-- A rewrite of every slot that leaves each one's process and marker
alone, and claims none that has no process. -/
theorem map (h : Settled x sheep reloads) {f : SheepSlot → SheepSlot}
    (hf : ∀ (id : ℕ) (s : SheepSlot), sheep[id]? = some s → (f s).ctl = s.ctl ∧
      (f s).entry.reload = s.entry.reload ∧ (f s).entry.status = s.entry.status ∧
      (f s).readyFailed = s.readyFailed ∧ (s.manual = none → (f s).manual = none)) :
    Settled x (sheep.map fun _ s => f s) reloads where
  idle := by
    intro j t ht hc
    rw [Table.get_map, Option.map_eq_some_iff] at ht
    obtain ⟨s, hs, rfl⟩ := ht
    obtain ⟨hctl, -, hstatus, hready, hmanual⟩ := hf j s hs
    have hi := h.idle j s hs (hctl ▸ hc)
    exact ⟨hmanual hi.manual, hready.trans hi.readyFailed, by rw [hstatus]; exact hi.status⟩
  drainee := by
    intro m job t hj ht
    rw [Table.get_map, Option.map_eq_some_iff] at ht
    obtain ⟨s, hs, rfl⟩ := ht
    obtain ⟨hctl, hreload, -⟩ := hf _ s hs
    have hd := h.drainee m job s hj hs
    exact ⟨by rw [hreload]; exact hd.marked, by rw [hctl]; exact hd.live⟩
  taken := h.taken

theorem drop (h : Settled x sheep reloads) (n : String) : Settled x sheep (reloads.erase n) where
  idle := h.idle
  drainee := by
    intro m job s hj hs
    obtain ⟨-, hj⟩ := Table.of_erase hj
    exact h.drainee m job s hj hs
  taken := by
    intro m job t hj ht
    obtain ⟨-, hj⟩ := Table.of_erase hj
    exact h.taken m job t hj ht

theorem put (h : Settled x sheep reloads)
    (hdrain : ∀ s, sheep[job.swap.oldId]? = some s → s.Drains x job.swap.oldId)
    (htaken : ∀ t, x = .exiting job.swap.oldId t → ∃ q, t.entry.reload = .drainee q) :
    Settled x sheep (reloads.insert n job) where
  idle := h.idle
  drainee := by
    intro m job' s hj hs
    rcases Table.of_insert hj with ⟨-, rfl⟩ | ⟨-, hj⟩
    · exact hdrain s hs
    · exact h.drainee m job' s hj hs
  taken := by
    intro m job' t hj ht
    rcases Table.of_insert hj with ⟨-, rfl⟩ | ⟨-, hj⟩
    · exact htaken t ht
    · exact h.taken m job' t hj ht

theorem replace (h : Settled x sheep reloads) (hj : reloads[n]? = some job)
    (hold : job'.swap.oldId = job.swap.oldId) : Settled x sheep (reloads.insert n job') := by
  refine h.put ?_ ?_ <;> rw [hold]
  · exact fun s => h.drainee n job s hj
  · exact fun t => h.taken n job t hj

theorem hole {y : Hole} (h : Settled x sheep reloads) (hx : ∀ id, x.Spares id)
    (hy : ∀ id, y.Spares id) : Settled y sheep reloads where
  idle := by
    intro j s hs hctl
    have hi := h.idle j s hs hctl
    exact ⟨hi.manual, hi.readyFailed, fun _ => hi.status (hx j)⟩
  drainee := by
    intro m job s hj hs
    have hd := h.drainee m job s hj hs
    exact ⟨hd.marked, fun _ => hd.live (hx _)⟩
  taken := fun m job t _ ht => absurd ht (hy _ t)

theorem not_old (h : Settled x sheep reloads) (hs : sheep[id]? = some s) (hctl : s.ctl = none)
    (hx : x.Spares id) (hj : reloads[n]? = some job) : job.swap.oldId ≠ id := by
  rintro rfl
  have hlive := (h.drainee n job s hj hs).live hx
  simp [hctl] at hlive

theorem live_of_replaceable (h : Settled x sheep reloads) (hs : sheep[id]? = some s)
    (hx : x.Spares id) (hrep : Actor.replaceable s = true) : s.ctl.isSome = true := by
  cases hc : s.ctl with
  | some t => rfl
  | none =>
    have hi := h.idle id s hs hc
    simp only [Actor.replaceable, reloadEligible, hi.readyFailed, Bool.or_false, Bool.and_eq_true,
      beq_iff_eq] at hrep
    have hrest := hi.status hx
    simp [ProcStatus.Rests, hrep.1] at hrest

/-- A rewrite that leaves the process, the claim and the reload marker
alone, and settles what it leaves at rest. -/
theorem rewrite (h : Settled x sheep reloads) (hs : sheep[id]? = some s) (hctl : s'.ctl = s.ctl)
    (hmanual : s'.ctl = none → s'.manual = s.manual)
    (hready : s'.ctl = none → s'.readyFailed = s.readyFailed)
    (hreload : s'.entry.reload = s.entry.reload)
    (hstatus : s'.ctl = none → x.Spares id → s'.entry.status = s.entry.status ∨
      s'.entry.status.Rests) : Settled x (sheep.insert id s') reloads := by
  refine h.insert ?_ ?_
  · intro hc
    have hi := h.idle id s hs (hctl ▸ hc)
    refine ⟨(hmanual hc).trans hi.manual, (hready hc).trans hi.readyFailed, fun hx => ?_⟩
    rcases hstatus hc hx with e | hrest
    · exact e ▸ hi.status hx
    · exact hrest
  · rintro m job hj rfl
    have hd := h.drainee m job s hj hs
    exact ⟨by rw [hreload]; exact hd.marked, by rw [hctl]; exact hd.live⟩

theorem enter (h : Settled x sheep reloads) (hctl : s'.ctl.isSome = true)
    (hold : ∀ (n : String) (job : ReloadJob), reloads[n]? = some job → job.swap.oldId ≠ id) :
    Settled x (sheep.insert id s') reloads := by
  refine h.insert (fun hc => ?_) fun m job hj e => absurd e (hold m job hj)
  simp [hc] at hctl

end Settled

theorem SheepSlot.drains_draining {x : Hole} {id : ℕ} {s : SheepSlot}
    (hlive : x.Spares id → s.ctl.isSome = true) (newId : Option ℕ) :
    (s.draining newId).Drains x id :=
  ⟨⟨newId, rfl⟩, hlive⟩

theorem SheepSlot.idles_exiting {id : ℕ} {s taken : SheepSlot} (hm : s.manual = none)
    (hr : s.readyFailed = false) : s.Idles (.exiting id taken) id :=
  ⟨hm, hr, fun hx => absurd rfl (hx taken)⟩

/-- **A move keeps slots settled**, in a turn whose probe does not time out
for a replacement with no process. -/
theorem Move.settled {c : Turn} {p q : Point} (hm : Move c p q) (hc : ¬ c.DemotesDead)
    (hi : Inv p.hole p.actor) (h : Settled p.hole p.actor.sheep p.actor.reloads) :
    Settled q.hole q.actor.sheep q.actor.reloads := by
  cases hm with
  | quiet | bump | hear | drains | answer | park | halt | disable | enable | expire | unwatch |
    panic | assertFail => exact h
  | edit s' hs hag =>
    exact h.rewrite hs hag.ctl (fun _ => hag.manual) (fun _ => hag.readyFailed) hag.reload
      fun _ _ => Or.inl hag.status
  | editAll f hf =>
    refine h.map fun id s hs => ?_
    have hag := hf id s hs
    exact ⟨hag.ctl, hag.reload, hag.status, hag.readyFailed, fun hn => hag.manual.trans hn⟩
  | rest hs hctl hrest hstatus =>
    refine h.rewrite hs (hrest.ctl.trans hctl.symm) (fun _ => hrest.manual)
      (fun _ => hrest.readyFailed) hrest.reload fun _ _ => Or.inr ?_
    rw [hrest.status]
    rcases hstatus with e | ⟨e, -⟩ <;> simp [ProcStatus.Rests, e]
  | backOff delay hs hctl hrest _ _ =>
    refine h.rewrite hs (hrest.ctl.trans hctl.symm) (fun _ => hrest.manual)
      (fun _ => hrest.readyFailed) hrest.reload fun _ _ => Or.inr ?_
    simp [hrest.status, ProcStatus.Rests]
  | register hs hst _ =>
    refine h.insert (fun _ => ⟨hs.manual, hs.readyFailed, fun _ => ?_⟩)
      fun m job hj e => absurd (Or.inl e) (hi.not_named_fresh hj)
    rcases hst with e | ⟨e, -⟩ <;> simp [ProcStatus.Rests, e]
  | launch hs _ _ _ _ =>
    exact h.enter (by simp [hs.ctl_eq]) fun m job hj e => hi.not_named_fresh hj (Or.inl e)
  | reseat hs hctl hs' hst _ _ _ _ _ _ =>
    refine h.insert (fun _ => ⟨hs'.manual, hs'.readyFailed, fun _ => ?_⟩)
      fun m job hj e => absurd e (h.not_old hs hctl (Hole.none_spares _) hj)
    simp [ProcStatus.Rests, hst]
  | reseatLive hs hctl hs' _ _ _ _ _ _ _ =>
    exact h.enter (by simp [hs'.ctl_eq])
      fun m job hj => h.not_old hs hctl (Hole.none_spares _) hj
  | relaunch hs hctl hrel _ _ _ =>
    have hlive := hrel.ctl
    refine h.insert (fun hidle => ?_) ?_
    · rw [hlive] at hidle
      cases hidle
    · rintro m job hj rfl
      exact ⟨by rw [hrel.reload]; exact (h.drainee m job _ hj hs).marked, by simp [hlive]⟩
  | claim m cap hs _ hctl _ _ =>
    refine h.rewrite hs rfl (fun hidle => ?_) (fun _ => rfl) rfl fun _ _ => Or.inl rfl
    -- a job only names an instance with no process while its exit is handled
    rcases hctl with hlive | ⟨rfl, -, job, hj, rfl⟩
    · rw [show _ = none from hidle] at hlive
      cases hlive
    · exact absurd rfl (h.not_old hs hidle (Hole.none_spares _) hj)
  | displace m cap hs hheld _ _ _ _ =>
    refine h.rewrite hs rfl (fun hidle => ?_) (fun _ => rfl) rfl fun _ _ => Or.inl rfl
    rw [(h.idle _ _ hs hidle).manual] at hheld
    cases hheld
  | doom hs _ _ =>
    exact h.rewrite hs rfl (fun _ => rfl) (fun _ => rfl) rfl fun _ _ => Or.inl rfl
  | remarkStop names _ | remarkRestart names _ _ =>
    refine h.map fun id s _ => ?_
    refine ⟨?_, ?_, ?_, ?_, fun hn => ?_⟩
    · split <;> rfl
    · split <;> rfl
    · split <;> rfl
    · split <;> rfl
    · simp [hn]
  | deregister hs hctl _ => exact h.erase
  | @exit a s task outcome _ _ htask hs _ =>
    have hx : Settled (.exiting task.id s) a.sheep a.reloads :=
      { idle := fun j t ht hctl =>
          ⟨(h.idle j t ht hctl).manual, (h.idle j t ht hctl).readyFailed,
            fun _ => (h.idle j t ht hctl).status (Hole.none_spares j)⟩
        drainee := fun m job t hj ht =>
          ⟨(h.drainee m job t hj ht).marked,
            fun _ => (h.drainee m job t hj ht).live (Hole.none_spares _)⟩
        taken := by
          intro m job t hj ht
          obtain ⟨hid, rfl⟩ := Hole.exiting.inj ht
          exact (h.drainee m job s hj (hid ▸ hs)).marked }
    refine hx.insert (fun _ => SheepSlot.idles_exiting rfl rfl) ?_
    intro m job hj hold
    exact ⟨(h.drainee m job s hj (hold ▸ hs)).marked, fun hsp => absurd rfl (hsp s)⟩
  | @resolve a id taken info hset hgone =>
    rw [Actor.resolvePending_eq]
    refine ⟨fun j s hs hctl => ?_, fun m job s hj hs => ?_, by simp⟩
    · have hj := h.idle j s hs hctl
      refine ⟨hj.manual, hj.readyFailed, fun _ => ?_⟩
      by_cases e : j = id
      · subst e
        exact (hset.2 s hs).2.1 hctl
      · refine hj.status fun t ht => e ?_
        exact (Hole.exiting.inj ht).1.symm
    · have hd := h.drainee m job s hj hs
      refine ⟨hd.marked, fun _ => ?_⟩
      by_cases e : job.swap.oldId = id
      · obtain ⟨q, hq⟩ := h.taken m job taken hj (by rw [e])
        have hs : a.sheep[job.swap.oldId]? = some s := hs
        rw [e, hgone m job q hj e hq] at hs
        cases hs
      · refine hd.live fun t ht => e ?_
        exact (Hole.exiting.inj ht).1.symm
  | fire t _ _ _ _ _ _ _ => exact h.hole Hole.none_spares (Hole.due_spares · _)
  | honour => exact h.hole (Hole.due_spares · _) Hole.none_spares
  | @beginOverlap a n oldId pid s s' queue credentials hs hname hrep _ _ hjob hrepl _ _ _ _ _ =>
    have hlive := h.live_of_replaceable hs (Hole.none_spares _) hrep
    have hd : (s.draining (some a.nextId)).Drains .none oldId :=
      SheepSlot.drains_draining (fun _ => hlive) _
    have hmark : Settled .none (a.sheep.insert oldId (s.draining (some a.nextId))) a.reloads :=
      h.insert (fun hidle => by simp [show s.ctl = none from hidle] at hlive) fun _ _ _ _ => hd
    have henter : Settled .none ((a.sheep.insert oldId (s.draining (some a.nextId))).insert
        a.nextId s') a.reloads :=
      hmark.enter (by simp [hrepl.ctl]) fun m job hj e => hi.not_named_fresh hj (Or.inl e)
    refine henter.put (fun t ht => ?_) (by simp)
    rw [Table.get_insert, if_neg (hi.lt_nextId hs).ne, Table.get_insert, if_pos rfl] at ht
    exact Option.some.inj ht ▸ hd
  | putBack hs hrep hjob =>
    have hlive := h.live_of_replaceable hs (Hole.none_spares _) hrep
    refine h.enter hlive fun m job hj e => ?_
    rw [← hi.name_of_named hs hj (Or.inl e), hjob] at hj
    cases hj
  | @beginSerial a n oldId s queue hs hname hrep _ hjob _ _ _ _ _ =>
    have hlive := h.live_of_replaceable hs (Hole.none_spares _) hrep
    have hd : (s.draining none).Drains .none oldId :=
      SheepSlot.drains_draining (fun _ => hlive) none
    have hmark : Settled .none (a.sheep.insert oldId (s.draining none)) a.reloads :=
      h.insert (fun hidle => by simp [show s.ctl = none from hidle] at hlive) fun _ _ _ _ => hd
    refine hmark.put (fun t ht => ?_) (by simp)
    rw [Table.get_insert, if_pos rfl] at ht
    exact Option.some.inj ht ▸ hd
  | @serialSpawn a n oldId pid s s' taken job credentials hs hname hctl hj hphase hold _ hrepl =>
    have hidle := h.idle oldId s hs hctl
    have hd : (s.draining (some a.nextId)).Drains (.exiting oldId taken) oldId :=
      SheepSlot.drains_draining (fun hsp => absurd rfl (hsp taken)) _
    have hmark : Settled (.exiting oldId taken)
        (a.sheep.insert oldId (s.draining (some a.nextId))) a.reloads :=
      h.insert (fun _ => SheepSlot.idles_exiting hidle.manual hidle.readyFailed) fun _ _ _ _ => hd
    have henter : Settled (.exiting oldId taken)
        ((a.sheep.insert oldId (s.draining (some a.nextId))).insert a.nextId s') a.reloads :=
      hmark.enter (by simp [hrepl.ctl]) fun m job hj e => hi.not_named_fresh hj (Or.inl e)
    exact henter.replace hj rfl
  | @scratch a oldId newId s taken hs _ _ _ =>
    have hidle := h.idle oldId s hs ‹_›
    exact h.insert (fun _ => SheepSlot.idles_exiting hidle.manual hidle.readyFailed) fun _ _ _ _ =>
      SheepSlot.drains_draining (fun hsp => absurd rfl (hsp taken)) _
  | commit hj hnew hstart _ => exact h.replace hj rfl
  | verify hj hnew hs hon hgone _ => exact h.replace hj rfl
  | drop n hdrop => exact h.drop n
  | unmark hs hold =>
    refine h.insert (fun hidle => ?_) fun m job hj e => absurd e (hold m job hj)
    exact ⟨(h.idle _ _ hs hidle).manual, (h.idle _ _ hs hidle).readyFailed,
      (h.idle _ _ hs hidle).status⟩
  | @restore x a n job s hj hphase hs hnew =>
    have hidle : s.restore.ctl = none → s.restore.Idles x job.swap.oldId := by
      intro hc
      rw [s.restore_ctl] at hc
      have hid := h.idle _ s hs hc
      have he : s.restore = s.setReload .none := by simp [SheepSlot.restore, SheepSlot.setReload, hc]
      rw [he]
      exact ⟨hid.manual, hid.readyFailed, hid.status⟩
    refine ((h.drop n).insert hidle fun m job' hj' e => ?_)
    -- the drainee's app has no other job
    obtain ⟨hne, hj'⟩ := Table.of_erase hj'
    have hm := hi.name_of_named hs hj' (Or.inl e)
    have hn := hi.name_of_named hs hj (Or.inl rfl)
    exact absurd (hm.symm.trans hn) hne
  | @lapse x a n job s hj hphase hs =>
    refine (h.drop n).insert (fun hidle => ?_) fun m job' hj' e => ?_
    · have hid := h.idle _ s hs hidle
      exact ⟨hid.manual, hid.readyFailed, hid.status⟩
    · rw [Table.get_erase] at hj'
      split at hj'
      · cases hj'
      · next hne =>
        have hm := hi.name_of_named hs hj' (Or.inl e)
        have hn := hi.name_of_named hs hj (Or.inl rfl)
        exact absurd (hm.symm.trans hn) hne
  | online hs hst _ _ =>
    have hlive : ∀ hidle : _ = none, _ := fun hidle => (h.idle _ _ hs hidle).status
      (Hole.none_spares _)
    refine h.rewrite hs rfl (fun _ => rfl) (fun hidle => ?_) rfl fun hidle _ => ?_
    all_goals
      have hrest := hlive hidle
      simp [ProcStatus.Rests, hst] at hrest
  | parkFailed hs hctl =>
    refine h.rewrite hs rfl (fun _ => rfl) (fun hidle => ?_) rfl fun _ _ => Or.inl rfl
    rw [show _ = none from hidle] at hctl
    cases hctl
  | demote hs hctl _ hr =>
    refine h.rewrite hs rfl (fun _ => rfl) (fun hidle => ?_) rfl fun hidle _ => ?_
    all_goals exact absurd (hctl hidle) hc
  | shutdown => exact ⟨h.idle, by simp, by simp⟩

/-- **Slots stay settled along every run** whose probes do not time out for
a replacement with no process. -/
theorem settled_run {a b : Actor} {h : List (Actor × World × Msg)} (hr : Run Actor.Step b h a)
    (hC : Meets (fun s e => ¬ Turn.DemotesDead ⟨s, e.1, e.2⟩) h) (hb : Inv .none b)
    (h0 : Settled .none b.sheep b.reloads) : Settled .none a.sheep a.reloads :=
  run_keeps (C := fun c => ¬ c.DemotesDead) (Q := fun a => Settled .none a.sheep a.reloads)
    (P := fun _ p => Settled p.hole p.actor.sheep p.actor.reloads) (fun _ _ _ h => h)
    (fun _ _ _ hc hi h hm => hm.settled hc hi h) (fun _ _ h => h) hr hC hb h0

theorem settled_init (dogBinaries : List (String × String)) :
    Settled .none (Actor.init dogBinaries).sheep (Actor.init dogBinaries).reloads :=
  ⟨by simp [Actor.init], by simp [Actor.init], by simp⟩

end Supervisor

end Shep
