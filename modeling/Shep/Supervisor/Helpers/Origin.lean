import Shep.Supervisor.Helpers.Turning

/-!
# Supervisor — where a slot comes from

`Origin` says, of every slot a move leaves, which slot before the move it
carries on from, or that the message put it there. What a slot is spawned
from, under which identity, and whether it is a dog's, only ever change
along it. `Turn.Knows` and the results on configs and identities are read
off it.
-/

namespace Shep

namespace Supervisor

/-- A slot on its way out: a delete is pending, or was when its exit was
taken. -/
def Hole.Leaving (x : Hole) (id : ℕ) (s : SheepSlot) : Prop :=
  s.pendingDelete = true ∨ ∃ taken, x = .exiting id taken ∧ taken.pendingDelete = true

/-- Where the slot `s'` under `id`, after a move from `p` to `q`, comes
from. -/
inductive Origin (c : Turn) (p q : Point) (id : ℕ) (s' : SheepSlot) : Prop
  /-- It was there. -/
  | kept {s : SheepSlot} : p.actor.sheep[id]? = some s → s'.name = s.name →
      s'.entry.dog = s.entry.dog → (c.Configures s.name ∨ s.Heir c.world s') →
      (p.hole.Leaving id s → q.hole.Leaving id s') → Origin c p q id s'
  /-- It replaces an instance: one nothing has claimed, or the one a serial
  swap has drained. -/
  | replaces {old : ℕ} {s : SheepSlot} : p.actor.sheep[old]? = some s → s'.name = s.name →
      s'.entry.dog = s.entry.dog → s.Heir c.world s' →
      (p.hole = .none ∧ s.manual = none ∨ ∃ (n : String) (job : ReloadJob),
        p.actor.reloads[n]? = some job ∧ job.swap.phase = .drainFirst ∧ job.swap.oldId = old) →
      Origin c p q id s'
  /-- A start or an add registered it. -/
  | founded : s'.entry.pending = none → c.Founds s' → Origin c p q id s'
  /-- A scale added it to the app's sheep. -/
  | scaled {j : ℕ} {s : SheepSlot} : c.Configures s'.name → p.actor.sheep[j]? = some s →
      s.name = s'.name → s.entry.dog = none → Origin c p q id s'

theorem Turn.Configures.not_adds {c : Turn} {n : String} (h : c.Configures n) (m : String) :
    ¬ c.Adds m := by
  unfold Turn.Configures at h
  unfold Turn.Adds
  split at h <;> simp_all

namespace Origin

variable {c : Turn} {p q : Point} {id : ℕ} {s s' : SheepSlot}

theorem same (hs : p.actor.sheep[id]? = some s) (hx : p.hole.Leaving id s → q.hole.Leaving id s) :
    Origin c p q id s :=
  .kept hs rfl rfl (Or.inr (.refl s)) hx

theorem rewritten (hs : p.actor.sheep[id]? = some s) (hx : q.hole = p.hole)
    (hspec : s'.entry.spec = s.entry.spec) (hpending : s'.entry.pending = s.entry.pending)
    (hflag : s'.entry.pendingReidentifies = s.entry.pendingReidentifies)
    (hcred : s'.entry.credentials = s.entry.credentials) (hdog : s'.entry.dog = s.entry.dog)
    (hdel : s.pendingDelete = true → s'.pendingDelete = true) : Origin c p q id s' := by
  refine .kept hs (congrArg AppConfig.name hspec) hdog
    (Or.inr ((SheepSlot.Heir.refl s).same hspec hpending hflag hcred)) fun hl => ?_
  rw [hx]
  exact hl.imp_left hdel

theorem insert {k : ℕ} {s₁ : SheepSlot} (hx : q.hole = p.hole)
    (hq : q.actor.sheep = p.actor.sheep.insert k s₁) (hk : Origin c p q k s₁)
    (hs' : q.actor.sheep[id]? = some s') : Origin c p q id s' := by
  rw [hq, Table.get_insert] at hs'
  split at hs'
  · next e =>
    rw [e, ← Option.some.inj hs']
    exact hk
  · exact same hs' (by rw [hx]; exact fun h => h)

theorem insert₂ {k k' : ℕ} {s₁ s₂ : SheepSlot} (hx : q.hole = p.hole)
    (hq : q.actor.sheep = (p.actor.sheep.insert k s₁).insert k' s₂) (hk : Origin c p q k s₁)
    (hk' : Origin c p q k' s₂) (hs' : q.actor.sheep[id]? = some s') : Origin c p q id s' := by
  rw [hq, Table.get_insert, Table.get_insert] at hs'
  split at hs'
  · next e =>
    rw [e, ← Option.some.inj hs']
    exact hk'
  · split at hs'
    · next e =>
      rw [e, ← Option.some.inj hs']
      exact hk
    · exact same hs' (by rw [hx]; exact fun h => h)

theorem registered (hs : s'.entry.pending = none) (hreg : c.Registers p.actor s'.name)
    (hfound : c.Configures s'.name ∨ c.Founds s') : Origin c p q id s' := by
  rcases hfound with hconf | hfound
  · rcases hreg with hadd | ⟨-, j, t, ht, hn, -, hdog⟩
    · exact absurd hadd (hconf.not_adds s'.name)
    · exact .scaled hconf ht hn hdog
  · exact .founded hs hfound

end Origin

theorem SheepSlot.restore_entry (s : SheepSlot) :
    s.restore.entry.spec = s.entry.spec ∧ s.restore.entry.pending = s.entry.pending ∧
      s.restore.entry.pendingReidentifies = s.entry.pendingReidentifies ∧
      s.restore.entry.credentials = s.entry.credentials ∧ s.restore.entry.dog = s.entry.dog ∧
      s.restore.pendingDelete = s.pendingDelete := by
  unfold SheepSlot.restore
  dsimp only
  split <;> exact ⟨rfl, rfl, rfl, rfl, rfl, rfl⟩

/-- **Every slot a move leaves comes from somewhere.** -/
theorem Move.origin {c : Turn} {p q : Point} (hm : Move c p q) {id : ℕ} {s' : SheepSlot}
    (hs' : q.actor.sheep[id]? = some s') : Origin c p q id s' := by
  cases hm with
  | quiet | bump | hear | drains | answer | park | halt | disable | enable | expire | commit |
    verify | drop | shutdown | unwatch | panic | assertFail => exact .same hs' fun h => h
  | fire t _ _ _ hs _ _ _ | honour =>
    exact .same hs' fun h => h.imp_right fun ⟨_, e, _⟩ => by cases e
  | edit t hs hag hheir =>
    refine .insert rfl rfl (.kept hs hag.name hag.dog hheir fun h => h.imp_left ?_) hs'
    exact fun hd => hag.pendingDelete.trans hd
  | editAll f hf hheir =>
    rw [show Actor.sheep _ = _ from rfl, Actor.mapSlots, Table.get_map,
      Option.map_eq_some_iff] at hs'
    obtain ⟨s, hs, rfl⟩ := hs'
    refine .kept hs (hf id s hs).name (hf id s hs).dog (hheir id s hs) fun h => h.imp_left ?_
    exact fun hd => (hf id s hs).pendingDelete.trans hd
  | rest hs _ hrest _ hheir | backOff delay hs _ hrest _ _ hheir =>
    refine .insert rfl rfl (.kept hs hrest.name hrest.dog (Or.inr hheir) fun h => h.imp_left ?_) hs'
    exact fun hd => hrest.pendingDelete.trans hd
  | register hs _ hreg hfound | launch hs _ _ hreg _ _ hfound =>
    exact .insert rfl rfl (.registered hs.parked hreg hfound) hs'
  | reseat hs _ hf _ _ _ _ _ _ _ hfound | reseatLive hs _ hf _ _ _ _ _ _ _ _ hfound =>
    exact .insert rfl rfl (.founded hf.parked hfound) hs'
  | relaunch hs _ hrel _ _ _ _ hheir =>
    refine .insert rfl rfl (.kept hs hrel.name hrel.dog (Or.inr hheir) fun h => h.imp_left ?_) hs'
    exact fun hd => hrel.pendingDelete.trans hd
  | claim m cap hs | displace m cap hs =>
    exact .insert rfl rfl (.rewritten hs rfl rfl rfl rfl rfl rfl fun hd => by simp [hd]) hs'
  | doom hs => exact .insert rfl rfl (.rewritten hs rfl rfl rfl rfl rfl rfl fun _ => rfl) hs'
  | remarkStop names | remarkRestart names =>
    rw [show Actor.sheep _ = _ from rfl, Actor.remark, Actor.mapSlots, Table.get_map,
      Option.map_eq_some_iff] at hs'
    obtain ⟨s, hs, rfl⟩ := hs'
    split
    · exact .rewritten hs rfl rfl rfl rfl rfl rfl fun hd => hd
    · exact .same hs fun h => h
  | deregister =>
    simp only [Actor.removeSlot, Table.get_erase] at hs'
    split at hs'
    · cases hs'
    · exact .same hs' fun h => h
  | @exit a s task outcome _ _ _ hs _ =>
    simp only [Table.get_insert] at hs'
    split at hs'
    · next e =>
      subst e
      rw [← Option.some.inj hs']
      refine .kept hs rfl rfl (Or.inr ((SheepSlot.Heir.refl s).same rfl rfl rfl rfl)) ?_
      rintro (hd | ⟨_, e, _⟩)
      · exact Or.inr ⟨s, rfl, hd⟩
      · cases e
    · exact .same hs' fun h => h.imp_right fun ⟨_, e, _⟩ => by cases e
  | @resolve a i taken info hset _ =>
    rw [Actor.resolvePending_eq] at hs'
    refine .same hs' fun h => ?_
    rcases h with hd | ⟨t, e, hd⟩
    · exact Or.inl hd
    · obtain ⟨rfl, rfl⟩ := Hole.exiting.inj e
      rw [hset.1 hd] at hs'
      cases hs'
  | beginOverlap hs hn hrep _ _ _ hrepl _ _ _ _ _ _ hheir =>
    refine .insert₂ rfl rfl (.rewritten hs rfl rfl rfl rfl rfl rfl fun hd => hd) ?_ hs'
    refine .replaces hs hrepl.name hrepl.dog hheir (Or.inl ⟨rfl, ?_⟩)
    simp only [Actor.replaceable, Bool.and_eq_true, Option.isNone_iff_eq_none] at hrep
    exact hrep.2
  | putBack hs | beginSerial hs | scratch hs | unmark hs | lapse _ _ hs | online hs
  | parkFailed hs | demote hs =>
    exact .insert rfl rfl (.rewritten hs rfl rfl rfl rfl rfl rfl fun hd => hd) hs'
  | serialSpawn hs _ _ hj hphase hold _ hrepl _ hheir =>
    refine .insert₂ rfl rfl (.rewritten hs rfl rfl rfl rfl rfl rfl fun hd => hd) ?_ hs'
    exact .replaces hs hrepl.name hrepl.dog hheir (Or.inr ⟨_, _, hj, hphase, hold⟩)
  | @restore x a n job s hj _ hs _ =>
    obtain ⟨h1, h2, h3, h4, h5, h6⟩ := s.restore_entry
    exact .insert rfl rfl (.rewritten hs rfl h1 h2 h3 h4 h5 fun hd => h6.trans hd) hs'

/-- A swap waits for its drainee as before, or starts to, on an instance
nothing has claimed. -/
theorem Move.drainFirst {c : Turn} {p q : Point} (hm : Move c p q) {n : String} {job : ReloadJob}
    (hj : q.actor.reloads[n]? = some job) (hphase : job.swap.phase = .drainFirst) :
    (∃ job' : ReloadJob, p.actor.reloads[n]? = some job' ∧ job'.swap.phase = .drainFirst ∧
      job'.swap.oldId = job.swap.oldId) ∨
    p.hole = .none ∧ ∃ s, p.actor.sheep[job.swap.oldId]? = some s ∧ s.manual = none := by
  have hsame : p.actor.reloads[n]? = some job → ∃ job' : ReloadJob,
      p.actor.reloads[n]? = some job' ∧ job'.swap.phase = .drainFirst ∧
        job'.swap.oldId = job.swap.oldId := fun h => ⟨job, h, hphase, rfl⟩
  cases hm with
  | beginOverlap | serialSpawn | commit | verify =>
    rcases Table.of_insert hj with ⟨-, rfl⟩ | ⟨-, hj⟩
    · cases hphase
    · exact Or.inl (hsame hj)
  | @beginSerial a m oldId s queue hs hn hrep =>
    rcases Table.of_insert hj with ⟨-, rfl⟩ | ⟨-, hj⟩
    · simp only [Actor.replaceable, Bool.and_eq_true, Option.isNone_iff_eq_none] at hrep
      exact Or.inr ⟨rfl, s, hs, hrep.2⟩
    · exact Or.inl (hsame hj)
  | drop | restore | lapse =>
    simp only [Actor.dropJob, Table.get_erase] at hj
    split at hj
    · cases hj
    · exact Or.inl (hsame hj)
  | shutdown => simp at hj
  | resolve info hset _ =>
    rw [Actor.resolvePending_eq] at hj
    exact Or.inl (hsame hj)
  | _ => exact Or.inl (hsame hj)

/-! ## Processes -/

/-- **The one process a move can start**: of the slot it leaves under that
id, from its config and under its identity. -/
theorem Move.spawned {c : Turn} {p q : Point} (hm : Move c p q) :
    q.actor.spawnedTasks = p.actor.spawnedTasks ∨ ∃ (task : Task) (s : SheepSlot),
      q.actor.spawnedTasks = task :: p.actor.spawnedTasks ∧ q.actor.sheep[task.id]? = some s ∧
        task.spec = s.entry.spec ∧ s.entry.credentials = .resolved task.credentials := by
  cases hm with
  | quiet | bump | hear | drains | answer | park | halt | edit | editAll | rest | backOff |
    register | reseat | displace | doom | remarkStop | remarkRestart | deregister | exit | expire |
    fire | honour | putBack | beginSerial | scratch | commit | verify | drop | unmark | restore |
    lapse | online | parkFailed | demote | shutdown | unwatch | panic | assertFail | disable | enable =>
    exact Or.inl rfl
  | @claim x a id s m cap =>
    refine Or.inl ?_
    cases hk : s.ctl <;> simp [Actor.spawnedTasks, Effect.started, List.filterMap_cons]
  | resolve info _ _ =>
    rw [Actor.resolvePending_eq]
    simp [Actor.spawnedTasks, Actor.repliedWith, Effect.started]
  | launch _ _ _ _ _ hruns _ | reseatLive _ _ _ _ _ _ _ _ _ _ hruns _
  | relaunch _ _ _ _ _ _ hruns _ =>
    exact Or.inr ⟨_, _, rfl, Actor.get_setSlot _ _ _, rfl, hruns.credentials_eq⟩
  | beginOverlap _ _ _ _ _ _ _ _ _ _ _ _ hruns _ | serialSpawn _ _ _ _ _ _ _ _ hruns _ =>
    exact Or.inr ⟨_, _, rfl, by simp, rfl, hruns.credentials_eq⟩

/-! ## Names -/

/-- The apps a turn can leave sheep of: the ones it finds sheep of, and the
ones it registers. -/
def Turn.Knows (c : Turn) (n : String) : Prop :=
  (∃ (id : ℕ) (s : SheepSlot), c.before.sheep[id]? = some s ∧ s.entry.dog = none ∧ s.name = n) ∨
    ∃ app : AppConfig, c.Enrols app ∧ app.name = n

/-- **A turn brings in no sheep its message does not name.** -/
theorem Actor.turn_knows {a : Actor} (h : Inv .none a) {m : Msg} (hadm : a.admits m) (w : World)
    {id : ℕ} {s : SheepSlot} (hs : (a.turn w m).sheep[id]? = some s) (hdog : s.entry.dog = none) :
    (⟨a, w, m⟩ : Turn).Knows s.name := by
  obtain ⟨b, hm, hb⟩ := turn_moves h hadm w
  have hall := hm.keeps (P := fun p => ∀ (id : ℕ) (s : SheepSlot), p.actor.sheep[id]? = some s →
    s.entry.dog = none → (⟨a, w, m⟩ : Turn).Knows s.name) h
    (fun id s hs hd => Or.inl ⟨id, s, hs, hd, rfl⟩) (fun p q _ hP hmove id s hs hd => ?_)
  · rw [hb] at hs
    exact hall id s hs hdog
  · rcases hmove.origin hs with ⟨ht, hn, hdog, -, -⟩ | ⟨ht, hn, hdog, -, -⟩ | ⟨-, hf⟩ |
      ⟨-, ht, hn, hdog⟩
    · exact hn ▸ hP _ _ ht (hdog.symm.trans hd)
    · exact hn ▸ hP _ _ ht (hdog.symm.trans hd)
    · exact Or.inr ⟨s.entry.spec, hf.enrolled hd, rfl⟩
    · exact hn ▸ hP _ _ ht hdog

/-! ## Configs -/

variable {a : Actor} {id : ℕ} {s : SheepSlot}

namespace Actor

/-- A serial reload is draining `id`. -/
def SwapsSerially (a : Actor) (id : ℕ) : Prop :=
  ∃ (n : String) (job : ReloadJob), a.reloads[n]? = some job ∧ job.swap.phase = .drainFirst ∧
    job.swap.oldId = id

/-- The supervisor may spawn from this slot again: it is not on its way
out, or a serial reload is draining it, which replaces it even when it has
been deleted meanwhile. -/
def Respawns (a : Actor) (id : ℕ) (s : SheepSlot) : Prop := s.pendingDelete = false ∨ a.SwapsSerially id

end Actor

/-- What the turn has left of a slot's config: what it found on an instance
of the app, or what its message registers. -/
def Turn.Inherits (c : Turn) (s : SheepSlot) : Prop :=
  (∃ (j : ℕ) (t : SheepSlot), c.before.sheep[j]? = some t ∧ t.entry.dog = none ∧
    c.before.Respawns j t ∧ t.name = s.name ∧ t.intendedSpec = s.intendedSpec) ∨
    c.Enrols s.intendedSpec ∧ s.intendedSpec.name = s.name

/-- The same of every slot that is spawned from again. -/
def Turn.InheritsAll (c : Turn) (p : Point) : Prop :=
  ∀ (id : ℕ) (s : SheepSlot), p.actor.sheep[id]? = some s → s.entry.dog = none →
    ¬ p.hole.Leaving id s ∨ p.actor.SwapsSerially id → c.Inherits s

theorem Turn.Inherits.heir {c : Turn} {s' : SheepSlot} (h : c.Inherits s) (hn : s'.name = s.name)
    (hi : s'.intendedSpec = s.intendedSpec) : c.Inherits s' := by
  unfold Turn.Inherits
  rw [hn, hi]
  exact h

/-- A move that writes no config carries every one of them on. -/
theorem Move.carries {c : Turn} {p q : Point} (hm : Move c p q) (hinv : Inv p.hole p.actor)
    (hconf : ∀ n, ¬ c.Configures n) (h : c.InheritsAll p) : c.InheritsAll q := by
  have hnone : ∀ (j : ℕ) (t : SheepSlot), p.hole = .none → p.actor.sheep[j]? = some t →
      t.manual = none → ¬ p.hole.Leaving j t := by
    intro j t hx ht hman hl
    rcases hl with hd | ⟨taken, e, -⟩
    · simpa [hman] using ((hinv.wellFormed ht).doomed hd).1
    · rw [hx] at e
      cases e
  intro id s' hs' hdog hcov
  rcases hm.origin hs' with ⟨hs, hn, hd, hheir, hleave⟩ | ⟨hs, hn, hd, hheir, hold⟩ |
    ⟨hpend, hf⟩ | ⟨hc, -, -, -⟩
  · refine (h id _ hs (hd.symm.trans hdog) ?_).heir hn (hheir.resolve_left (hconf _)).intended
    rcases hcov with hstay | ⟨n, job, hj, hphase, rfl⟩
    · exact Or.inl fun hl => hstay (hleave hl)
    · rcases hm.drainFirst hj hphase with ⟨job', hj', hphase', hold'⟩ | ⟨hx, t, ht, hman⟩
      · exact Or.inr ⟨n, job', hj', hphase', hold'⟩
      · obtain rfl := Option.some.inj (hs.symm.trans ht)
        exact Or.inl (hnone _ _ hx hs hman)
  · refine (h _ _ hs (hd.symm.trans hdog) ?_).heir hn hheir.intended
    rcases hold with ⟨hx, hman⟩ | ⟨n, job, hj, hphase, hold⟩
    · exact Or.inl (hnone _ _ hx hs hman)
    · exact Or.inr ⟨n, job, hj, hphase, hold⟩
  · have hspec : s'.intendedSpec = s'.entry.spec := by simp [SheepSlot.intendedSpec, hpend]
    exact Or.inr ⟨hspec ▸ hf.enrolled hdog, congrArg AppConfig.name hspec⟩
  · exact absurd hc (hconf _)

/-- **A turn that writes no config leaves every slot the config it found**,
or the one its message registers. -/
theorem Actor.turn_carries (h : Inv .none a) {m : Msg} (hadm : a.admits m) (w : World)
    (hconf : ∀ n, ¬ (⟨a, w, m⟩ : Turn).Configures n) (hs : (a.turn w m).sheep[id]? = some s)
    (hdog : s.entry.dog = none) (hcov : (a.turn w m).Respawns id s) :
    (⟨a, w, m⟩ : Turn).Inherits s := by
  obtain ⟨d, hm, hd⟩ := turn_moves h hadm w
  have hall := hm.keeps (P := (⟨a, w, m⟩ : Turn).InheritsAll) h
    (fun id t ht htd htc => Or.inl ⟨id, t, ht, htd, ?_, rfl, rfl⟩)
    fun p q hinv hp hmove => hmove.carries hinv hconf hp
  · rw [hd] at hs hcov
    refine hall id s hs hdog (hcov.imp_left fun hstay hl => ?_)
    rcases hl with hl | ⟨_, e, -⟩
    · rw [hstay] at hl
      cases hl
    · cases e
  · refine htc.imp_left fun hstay => ?_
    by_contra hl
    exact hstay (Or.inl (by simpa using hl))

end Supervisor

end Shep
