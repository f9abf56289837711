import Shep.Supervisor.Helpers.Asked
import Shep.Supervisor.Helpers.Origin
import Shep.Supervisor.Helpers.Owning
import Shep.Supervisor.Helpers.Shelved

/-!
# Supervisor — instances a reload may no longer take

A stop or a delete of a whole app leaves a reload of it in flight with a
queue it can do nothing with: every instance still in it is down, or about
to be. `Turn.Bars` is what a turn keeps of that, so that no move of it
starts a replacement; `Condemning` is what it keeps of an app that is to go.
-/

namespace Shep

namespace Supervisor

/-! ## Slots -/

/-- Its exit will not start it again. -/
def SheepSlot.Unwilling (s : SheepSlot) : Prop := s.Condemned ∨ s.pendingDelete = true

/-- At rest, or claimed for good: no reload may take it. -/
structure SheepSlot.Barred (s : SheepSlot) : Prop where
  idle : s.ctl = none →
    (s.entry.status = .stopped ∨ s.entry.status = .errored) ∧ s.readyFailed = false
  live : s.ctl.isSome = true → s.manual.isSome = true ∧ s.Unwilling

namespace SheepSlot

variable {s s' : SheepSlot}

theorem Unwilling.congr (h : s.Unwilling) (hm : s'.manual = s.manual)
    (hd : s'.pendingDelete = s.pendingDelete) : s'.Unwilling :=
  h.imp (fun hc => hc.congr hm) hd.trans

theorem Barred.congr (h : s.Barred) (hctl : s'.ctl = s.ctl)
    (hstatus : s.ctl = none → s'.entry.status = s.entry.status)
    (hready : s.ctl = none → s'.readyFailed = s.readyFailed)
    (hman : s'.manual = s.manual) (hd : s'.pendingDelete = s.pendingDelete) : s'.Barred where
  idle hc := by
    rw [hctl] at hc
    rw [hstatus hc, hready hc]
    exact h.idle hc
  live hc := by
    rw [hctl] at hc
    obtain ⟨hsome, hun⟩ := h.live hc
    exact ⟨by rw [hman]; exact hsome, hun.congr hman hd⟩

/-- **A reload passes a barred instance by.** -/
theorem Barred.not_replaceable (h : s.Barred) : Actor.replaceable s = false := by
  cases hc : s.ctl with
  | none =>
    obtain ⟨hst, hready⟩ := h.idle hc
    rcases hst with hst | hst <;> simp [Actor.replaceable, reloadEligible, hst, hready]
  | some k =>
    have hsome := (h.live (by simp [hc])).1
    cases hm : s.manual with
    | none => simp [hm] at hsome
    | some m => simp [Actor.replaceable, hm]

end SheepSlot

/-! ## Where a slot comes from -/

/-- **A slot under an id handed out before was there**, under its name. -/
theorem Move.enters {c : Turn} {p q : Point} (hm : Move c p q) {id : ℕ} {s' : SheepSlot}
    (hs' : q.actor.sheep[id]? = some s') : p.actor.nextId ≤ id ∨
      ∃ s, p.actor.sheep[id]? = some s ∧ s'.name = s.name := by
  have hsame : p.actor.sheep[id]? = some s' → p.actor.nextId ≤ id ∨
      ∃ s, p.actor.sheep[id]? = some s ∧ s'.name = s.name := fun h => Or.inr ⟨s', h, rfl⟩
  have hput : ∀ {j : ℕ} {t t' : SheepSlot}, p.actor.sheep[j]? = some t →
      (p.actor.sheep.insert j t')[id]? = some s' → t'.name = t.name → p.actor.nextId ≤ id ∨
      ∃ s, p.actor.sheep[id]? = some s ∧ s'.name = s.name := by
    intro j t t' ht h hname
    rw [Table.get_insert] at h
    split at h
    · next e =>
      rw [← Option.some.inj h, e]
      exact Or.inr ⟨t, ht, hname⟩
    · exact hsame h
  cases hm with
  | quiet | bump | hear | drains | answer | park | halt | disable | enable | expire | fire |
    honour | commit | verify | drop | shutdown | unwatch | panic | assertFail => exact hsame hs'
  | resolve info _ _ =>
    rw [Actor.resolvePending_eq] at hs'
    exact hsame hs'
  | edit t' ht hag => exact hput ht hs' hag.name
  | @editAll x a f hf =>
    simp only [Actor.mapSlots, Table.get_map, Option.map_eq_some_iff] at hs'
    obtain ⟨t, ht, rfl⟩ := hs'
    exact Or.inr ⟨t, ht, (hf id t ht).name⟩
  | rest ht _ hrest => exact hput ht hs' hrest.name
  | backOff _ ht _ hrest => exact hput ht hs' hrest.name
  | @register a t | @launch a t =>
    simp only [Actor.setSlot, Table.get_insert] at hs'
    split at hs'
    · next e => exact Or.inl e.ge
    · exact hsame hs'
  | reseat ht _ _ _ hname => exact hput ht hs' hname
  | reseatLive ht _ _ _ hname => exact hput ht hs' hname
  | relaunch ht _ hre => exact hput ht hs' hre.name
  | claim m cap ht | displace m cap ht | doom ht | exit task outcome _ _ _ ht | putBack ht
  | beginSerial ht | scratch ht | unmark ht | lapse _ _ ht | online ht | parkFailed ht
  | demote ht => exact hput ht hs' rfl
  | remarkStop names | remarkRestart names =>
    simp only [Actor.remark, Actor.mapSlots, Table.get_map, Option.map_eq_some_iff] at hs'
    obtain ⟨t, ht, rfl⟩ := hs'
    refine Or.inr ⟨t, ht, ?_⟩
    split <;> rfl
  | deregister =>
    simp only [Actor.removeSlot, Table.get_erase] at hs'
    split at hs'
    · cases hs'
    · exact hsame hs'
  | @beginOverlap a n oldId pid t t' queue credentials ht _ _ _ _ _ hnew
  | @serialSpawn a n oldId pid t t' taken job credentials ht _ _ _ _ _ _ hnew =>
    simp only [Table.get_insert _ a.nextId] at hs'
    split at hs'
    · next e => exact Or.inl e.ge
    · exact hput ht hs' rfl
  | @restore x a n job t _ _ ht => exact hput ht hs' t.restore_name

/-- A slot under an id handed out before the turn was there when it began,
under its name, and its process has not gone unless the turn is an exit. -/
structure Turn.Since (c : Turn) (p : Point) : Prop where
  later : c.before.nextId ≤ p.actor.nextId
  was : ∀ (id : ℕ) (s : SheepSlot), id < c.before.nextId → p.actor.sheep[id]? = some s →
    ∃ s₀, c.before.sheep[id]? = some s₀ ∧ s.name = s₀.name
  ran : ∀ (id k : ℕ) (s₀ : SheepSlot), c.before.sheep[id]? = some s₀ → s₀.ctl = some k →
    (∃ s, p.actor.sheep[id]? = some s ∧ s.ctl = some k) ∨
      ∃ task outcome oomKilled, c.msg = .exited task outcome oomKilled

theorem Move.nextId_le {c : Turn} {p q : Point} (hm : Move c p q) :
    p.actor.nextId ≤ q.actor.nextId := by
  cases hm with
  | bump m hle => exact hle
  | register | launch | beginOverlap | serialSpawn => exact Nat.le_succ _
  | resolve info _ _ =>
    rw [Actor.resolvePending_eq]
  | _ => exact le_rfl

theorem Move.since {c : Turn} {p q : Point} (hm : Move c p q) (hi : Inv p.hole p.actor)
    (h : c.Since p) : c.Since q where
  later := h.later.trans hm.nextId_le
  was id s hid hs := by
    rcases hm.enters hs with hnew | ⟨t, ht, hname⟩
    · have hle := h.later
      omega
    · obtain ⟨s₀, hs₀, hname₀⟩ := h.was id t hid ht
      exact ⟨s₀, hs₀, hname.trans hname₀⟩
  ran id k s₀ hs₀ hk := by
    rcases h.ran id k s₀ hs₀ hk with ⟨s, hs, hctl⟩ | hexit
    · rcases hm.keeps hi hs hctl with ⟨s', hs', hkeep⟩ | ⟨⟨task, outcome, oomKilled, he, -⟩, -⟩
      · exact Or.inl ⟨s', hs', hkeep.ctl.trans hctl⟩
      · exact Or.inr ⟨task, outcome, oomKilled, he⟩
    · exact Or.inr hexit

theorem Turn.since_begin (c : Turn) : c.Since ⟨.none, c.before⟩ :=
  ⟨le_rfl, fun _ s _ hs => ⟨s, hs, rfl⟩, fun _ _ s₀ hs₀ hk => Or.inl ⟨s₀, hs₀, hk⟩⟩

/-! ## The queue of a reload -/

/-- `id` is one the turn finds the app's reload still to take. -/
def Turn.Takes (c : Turn) (n : String) (id : ℕ) : Prop :=
  ∃ job : ReloadJob, c.before.reloads[n]? = some job ∧ id ∈ job.queue

/-- An operator asks for a process of the app: a start or an add of it, a
dog's start, an enable, a restart that reaches one of its instances, or a
reload of it begun afresh. -/
def Turn.Starts (c : Turn) (n : String) : Prop :=
  c.Adds n ∨ c.Enables n ∨
    match c.msg with
    | .command (.restart selector .operator) =>
      ∃ id ∈ c.before.matchingIds selector, ∃ s, c.before.sheep[id]? = some s ∧ s.name = n
    | .command (.reload selector) => c.before.reloads[n]? = none ∧
      ∃ id ∈ c.before.matchingIds selector, ∃ s, c.before.sheep[id]? = some s ∧ s.name = n
    | _ => False

/-- A cron or a watch restart reaches an instance with no process that the
app's reload is still to take. -/
def Turn.Revives (c : Turn) (n : String) : Prop :=
  ∃ (selector : ProcessSelector) (id : ℕ) (s : SheepSlot),
    c.msg = .command (.restart selector .automatic) ∧ c.Takes n id ∧
      id ∈ c.before.matchingIds selector ∧ c.before.sheep[id]? = some s ∧ s.ctl = none

/-- Every instance of `n` among `Q` is barred, or was when its exit was
taken. -/
structure Barring (Q : ℕ → Prop) (n : String) (x : Hole) (sheep : Std.ExtTreeMap ℕ SheepSlot) :
    Prop where
  named : ∀ (id : ℕ) (s : SheepSlot), Q id → sheep[id]? = some s → s.name = n
  down : ∀ (id : ℕ) (s : SheepSlot), Q id → sheep[id]? = some s → x.Spares id → s.Barred
  taken : ∀ (id : ℕ) (t : SheepSlot), Q id → x = .exiting id t → t.Unwilling ∧
    ∀ s, sheep[id]? = some s → s.readyFailed = false

namespace Barring

variable {Q : ℕ → Prop} {n : String} {x : Hole} {sheep : Std.ExtTreeMap ℕ SheepSlot} {id : ℕ}
variable {s s' : SheepSlot} {f : SheepSlot → SheepSlot}

/-- A slot rewritten under its own name. -/
theorem insert (h : Barring Q n x sheep) (hs : sheep[id]? = some s) (hname : s'.name = s.name)
    (hready : ∀ t, x = .exiting id t → s.readyFailed = false → s'.readyFailed = false)
    (hdown : Q id → x.Spares id → s.Barred → s'.Barred) : Barring Q n x (sheep.insert id s') where
  named j t hj ht := by
    rw [Table.get_insert] at ht
    split at ht
    · next e =>
      subst e
      rw [← Option.some.inj ht, hname]
      exact h.named j s hj hs
    · exact h.named j t hj ht
  down j t hj ht hx := by
    rw [Table.get_insert] at ht
    split at ht
    · next e =>
      subst e
      rw [← Option.some.inj ht]
      exact hdown hj hx (h.down j s hj hs hx)
    · exact h.down j t hj ht hx
  taken j t hj hx := by
    obtain ⟨hun, hwas⟩ := h.taken j t hj hx
    refine ⟨hun, fun u hu => ?_⟩
    rw [Table.get_insert] at hu
    split at hu
    · next e =>
      subst e
      rw [← Option.some.inj hu]
      exact hready t hx (hwas s hs)
    · exact hwas u hu

theorem enter (h : Barring Q n x sheep) (hid : ¬ Q id) : Barring Q n x (sheep.insert id s') := by
  have hget : ∀ j, Q j → (sheep.insert id s')[j]? = sheep[j]? := by
    intro j hj
    rw [Table.get_insert, if_neg]
    rintro rfl
    exact hid hj
  exact ⟨fun j t hj ht => h.named j t hj (hget j hj ▸ ht),
    fun j t hj ht => h.down j t hj (hget j hj ▸ ht),
    fun j t hj hx => (h.taken j t hj hx).imp_right fun hwas u hu => hwas u (hget j hj ▸ hu)⟩

theorem erase (h : Barring Q n x sheep) : Barring Q n x (sheep.erase id) := by
  have hget : ∀ (j : ℕ) (t : SheepSlot), (sheep.erase id)[j]? = some t → sheep[j]? = some t :=
    fun _ _ ht => (Table.of_erase ht).2
  exact ⟨fun j t hj ht => h.named j t hj (hget j t ht), fun j t hj ht => h.down j t hj (hget j t ht),
    fun j t hj hx => (h.taken j t hj hx).imp_right fun hwas u hu => hwas u (hget j u hu)⟩

theorem map (h : Barring Q n x sheep)
    (hname : ∀ (id : ℕ) (s : SheepSlot), sheep[id]? = some s → (f s).name = s.name)
    (hready : ∀ (id : ℕ) (s : SheepSlot), sheep[id]? = some s → (f s).readyFailed = s.readyFailed)
    (hdown : ∀ (id : ℕ) (s : SheepSlot), sheep[id]? = some s → s.name = n → s.Barred → (f s).Barred) :
    Barring Q n x (sheep.map fun _ s => f s) where
  named j t hj ht := by
    rw [Table.get_map, Option.map_eq_some_iff] at ht
    obtain ⟨s, hs, rfl⟩ := ht
    exact (hname j s hs).trans (h.named j s hj hs)
  down j t hj ht hx := by
    rw [Table.get_map, Option.map_eq_some_iff] at ht
    obtain ⟨s, hs, rfl⟩ := ht
    exact hdown j s hs (h.named j s hj hs) (h.down j s hj hs hx)
  taken j t hj hx := by
    refine (h.taken j t hj hx).imp_right fun hwas u hu => ?_
    rw [Table.get_map, Option.map_eq_some_iff] at hu
    obtain ⟨s, hs, rfl⟩ := hu
    exact (hready j s hs).trans (hwas s hs)

theorem hole {y : Hole} (h : Barring Q n x sheep) (hx : ∀ id, x.Spares id)
    (hy : ∀ id, y.Spares id) : Barring Q n y sheep :=
  ⟨h.named, fun id s hid hs _ => h.down id s hid hs (hx id),
    fun id t _ he => absurd he (hy id t)⟩

end Barring

/-- What a turn keeps of a reload with nothing left to take: its queue is
barred, it drains nothing it would replace, and the replacements of the app
that run are old ones. -/
structure Turn.Bars (c : Turn) (n : String) (old : List Task) (p : Point) : Prop where
  inv : Inv .none c.before
  since : c.Since p
  slots : Barring (c.Takes n) n p.hole p.actor.sheep
  jobs : ∀ job : ReloadJob, p.actor.reloads[n]? = some job →
    job.swap.phase ≠ .drainFirst ∧ ∀ id ∈ job.queue, c.Takes n id
  lives : ∀ t ∈ p.actor.tasks, t.name = n → t.via = .replacement → t ∈ old

namespace Turn.Bars

variable {c : Turn} {n : String} {old : List Task} {p : Point} {id : ℕ} {s : SheepSlot}

theorem lt_nextId (h : c.Bars n old p) (hid : c.Takes n id) : id < c.before.nextId := by
  obtain ⟨job, hj, hmem⟩ := hid
  exact (h.inv.jobs n job hj).queue_lt id hmem

/-- Nothing but an operator starts an instance that waits to be taken. -/
theorem not_relaunches (h : c.Bars n old p) (hst : ¬ c.Starts n) (hrev : ¬ c.Revives n)
    (hid : c.Takes n id) (hs : p.actor.sheep[id]? = some s) (hctl : s.ctl = none) :
    ¬ p.hole.Relaunches c id s := by
  intro hre
  have hname := h.slots.named id s hid hs
  obtain ⟨s₀, hs₀, hname₀⟩ := h.since.was id s (h.lt_nextId hid) hs
  unfold Hole.Relaunches at hre
  split at hre
  · next i taken hx =>
    obtain ⟨rfl, ⟨o, hman⟩, hdel⟩ := hre
    rcases (h.slots.taken i taken hid hx).1 with ⟨k, hk, hne⟩ | hd
    · rw [hman] at hk
      exact hne (congrArg PendingManual.kind (Option.some.inj hk)).symm
    · simp [hd] at hdel
  · next i hx =>
    obtain ⟨rfl, hwait⟩ := hre
    have hb := h.slots.down i s hid hs (hx ▸ Hole.due_spares i i)
    rcases (hb.idle hctl).1 with he | he <;> simp [he] at hwait
  · -- the turn is a restart or an enable, and no exit: it found the slot at rest
    have hidle : (∀ task outcome oomKilled, c.msg ≠ .exited task outcome oomKilled) →
        s₀.ctl = none := by
      intro hmsg
      cases hk : s₀.ctl with
      | none => rfl
      | some k =>
        rcases h.since.ran id k s₀ hs₀ hk with ⟨t, ht, htk⟩ | ⟨task, outcome, oomKilled, he⟩
        · rw [← Option.some.inj (hs.symm.trans ht), hctl] at htk
          cases htk
        · exact absurd he (hmsg task outcome oomKilled)
    unfold Turn.Restarts at hre
    split at hre
    · next selector origin hmsg =>
      cases origin with
      | operator =>
        refine hst (Or.inr (Or.inr ?_))
        rw [hmsg]
        exact ⟨id, hre, s₀, hs₀, hname₀.symm.trans hname⟩
      | automatic =>
        exact hrev ⟨selector, id, s₀, hmsg, hid, hre, hs₀, hidle (by simp [hmsg])⟩
    · next selector hmsg =>
      obtain ⟨t, ht, hen⟩ := hre
      obtain rfl := Option.some.inj (hs₀.symm.trans ht)
      rw [← hname₀, hname] at hen
      exact hst (Or.inr (Or.inl hen))
    · exact hre

theorem takes_of_queued (h : c.Bars n old p) (hst : ¬ c.Starts n)
    (hs : p.actor.sheep[id]? = some s) (hname : s.name = n) (hq : c.Queued n id) : c.Takes n id := by
  rcases hq with ⟨selector, hmsg, hid, hnone⟩ | hjob
  · refine absurd (Or.inr (Or.inr ?_)) hst
    obtain ⟨s₀, hs₀, -⟩ := Actor.mem_reachedIds.1 hid
    obtain ⟨t, ht, hnt⟩ := h.since.was id s ((h.inv.lt_nextId hs₀)) hs
    rw [hmsg]
    exact ⟨hnone, id, hid, t, ht, hnt.symm.trans hname⟩
  · exact hjob

theorem not_taken (h : c.Bars n old p) (hst : ¬ c.Starts n) (hx : p.hole = .none)
    (hs : p.actor.sheep[id]? = some s) (hname : s.name = n) (hq : c.Queued n id)
    (hrep : Actor.replaceable s = true) : False := by
  have hb := h.slots.down id s (h.takes_of_queued hst hs hname hq) hs (hx ▸ Hole.none_spares id)
  simp [hb.not_replaceable] at hrep

theorem not_verified (h : c.Bars n old p) (hid : c.Takes n id) (hs : p.actor.sheep[id]? = some s)
    {v : VerifyWait} {readiness : Readiness} (hv : c.Verifies v readiness) : v.newId ≠ id := by
  rintro rfl
  obtain ⟨-, job', hj', hnew, -⟩ := hv
  obtain ⟨s₀, hs₀, -⟩ := h.since.was _ s (h.lt_nextId hid) hs
  obtain ⟨job, hj, hmem⟩ := hid
  have hname : n = v.name := ((h.inv.jobs n job hj).queue_name _ hmem s₀ hs₀).symm.trans
    ((h.inv.jobs v.name job' hj').new_name _ s₀ hnew hs₀)
  subst hname
  obtain rfl := Option.some.inj (hj.symm.trans hj')
  exact (h.inv.jobs _ job hj).new_queued _ hmem hnew

end Turn.Bars

/-- **A move keeps the queue barred**, in a turn that starts and revives
nothing of it. -/
theorem Move.barring {c : Turn} {p q : Point} {n : String} {old : List Task} (hm : Move c p q)
    (hst : ¬ c.Starts n) (hrev : ¬ c.Revives n) (hp : c.Bars n old p) :
    Barring (c.Takes n) n q.hole q.actor.sheep := by
  have h := hp.slots
  have hold : ∀ id, c.Takes n id → id < p.actor.nextId := fun id hid =>
    (hp.lt_nextId hid).trans_le hp.since.later
  cases hm with
  | quiet | bump | hear | drains | answer | park | halt | expire | commit | verify | drop |
    shutdown | unwatch | panic | assertFail | disable | enable => exact h
  | edit s' hs hag =>
    exact h.insert hs hag.name (fun _ _ hr => hag.readyFailed.trans hr) fun _ _ hb =>
      hb.congr hag.ctl (fun _ => hag.status) (fun _ => hag.readyFailed) hag.manual hag.pendingDelete
  | editAll f hf =>
    refine h.map (fun id s hs => (hf id s hs).name) (fun id s hs => (hf id s hs).readyFailed) ?_
    intro id s hs _ hb
    have hag := hf id s hs
    exact hb.congr hag.ctl (fun _ => hag.status) (fun _ => hag.readyFailed) hag.manual hag.pendingDelete
  | rest hs hctl hrest hwhy =>
    refine h.insert hs hrest.name (fun _ _ hr => hrest.readyFailed.trans hr) fun _ _ hb => ?_
    refine ⟨fun _ => ⟨?_, hrest.readyFailed.trans (hb.idle hctl).2⟩, by simp [hrest.ctl]⟩
    rw [hrest.status]
    exact hwhy.imp id fun e => e.1
  | @backOff x a id s s' delay hs hctl hrest hfail _ =>
    refine h.insert hs hrest.name (fun _ _ hr => hrest.readyFailed.trans hr) fun hid hx _ => ?_
    rcases hfail with ⟨-, hre | hnew | hen⟩ | ⟨taken, he, -⟩
    · exact absurd hre (hp.not_relaunches hst hrev hid hs hctl)
    · have hlt := hp.lt_nextId hid
      omega
    · rw [h.named id s hid hs] at hen
      exact absurd (Or.inr (Or.inl hen)) hst
    · exact absurd he (hx taken)
  | register | launch => exact h.enter fun hid => lt_irrefl _ (hold _ hid)
  | reseat hs _ hf _ hname _ _ hen | reseatLive hs _ hf _ hname _ _ hen =>
    refine h.insert hs hname (fun _ _ _ => hf.readyFailed) fun hid _ _ => ?_
    rw [h.named _ _ hid hs] at hen
    exact absurd (Or.inr (Or.inl hen)) hst
  | @relaunch x a id pid s s' credentials hs hctl hre _ _ hwho =>
    exact h.insert hs hre.name (fun _ _ _ => hre.readyFailed) fun hid _ _ =>
      absurd hwho (hp.not_relaunches hst hrev hid hs hctl)
  | @claim x a id s m cap hs hman _ _ _ =>
    refine h.insert hs rfl (fun _ _ hr => hr) fun _ _ hb => ⟨hb.idle, fun hlive => ?_⟩
    have hsome := (hb.live hlive).1
    simp [hman] at hsome
  | @displace x a id s held m cap hs hman hauto =>
    refine h.insert hs rfl (fun _ _ hr => hr) fun _ _ hb => ⟨hb.idle, fun hlive => ⟨rfl, ?_⟩⟩
    rcases (hb.live hlive).2 with ⟨k, hk, -⟩ | hd
    · rw [hman] at hk
      simp [Option.some.inj hk] at hauto
    · exact Or.inr (by simp [hd])
  | @doom x a id s hs _ hman =>
    exact h.insert hs rfl (fun _ _ hr => hr) fun _ _ hb => ⟨hb.idle, fun _ => ⟨hman, Or.inr rfl⟩⟩
  | remarkStop names _ =>
    refine h.map (fun id s _ => by split <;> rfl) (fun id s _ => by split <;> rfl) fun id s _ _ hb => ?_
    split
    · exact ⟨hb.idle, fun _ => ⟨rfl, Or.inl ⟨.stop, rfl, by simp⟩⟩⟩
    · exact hb
  | remarkRestart names hnames _ =>
    refine h.map (fun id s _ => by split <;> rfl) (fun id s _ => by split <;> rfl) fun id s _ hn hb => ?_
    split
    · next hboth =>
      have hmem : s.name ∈ names := by simpa using (Bool.and_eq_true_iff.1 hboth).2
      exact absurd (Or.inr (Or.inl (hn ▸ (hnames _ hmem).2))) hst
    · exact hb
  | deregister => exact h.erase
  | @exit a s task outcome _ _ _ hs hctl =>
    refine ⟨fun j t hj ht => ?_, fun j t hj ht hx => ?_, fun j t hj he => ?_⟩
    · rw [Table.get_insert] at ht
      split at ht
      · next e =>
        rw [← Option.some.inj ht]
        exact h.named task.id s (e ▸ hj) hs
      · exact h.named j t hj ht
    · rw [Table.get_insert, if_neg] at ht
      · exact h.down j t hj ht (Hole.none_spares j)
      · rintro rfl
        exact hx s rfl
    · obtain ⟨rfl, rfl⟩ := Hole.exiting.inj he
      have hb := h.down _ s hj hs (Hole.none_spares _)
      refine ⟨(hb.live (by simp [hctl])).2, fun u hu => ?_⟩
      rw [Table.get_insert, if_pos rfl] at hu
      rw [← Option.some.inj hu]
      rfl
  | @resolve a id taken info hsettles _ =>
    rw [Actor.resolvePending_eq]
    refine ⟨h.named, fun j s hj hs _ => ?_, by simp⟩
    by_cases e : j = id
    · -- its exit was not to start it again, so it is gone or stopped
      subst e
      obtain ⟨hun, hready⟩ := h.taken j taken hj rfl
      rcases hun with ⟨k, hk, hne⟩ | hd
      · obtain ⟨hctl, hst⟩ := (hsettles.2 s hs).2.2 k _ hk hne
        exact ⟨fun _ => ⟨Or.inl hst, hready s hs⟩, by simp [hctl]⟩
      · have hs' : a.sheep[j]? = some s := hs
        rw [hsettles.1 hd] at hs'
        cases hs'
    · exact h.down j s hj hs fun t he => e (Hole.exiting.inj he).1.symm
  | fire => exact h.hole Hole.none_spares fun id => Hole.due_spares id _
  | honour => exact h.hole (fun id => Hole.due_spares id _) Hole.none_spares
  | @beginOverlap a m oldId pid s s' queue credentials hs hname hrep =>
    refine Barring.enter (h.insert hs rfl (fun _ _ hr => hr) fun hid hx hb => ?_) fun hid =>
      lt_irrefl _ (hold _ hid)
    simp [hb.not_replaceable] at hrep
  | @putBack a oldId s hs hrep _ | @beginSerial a m oldId s queue hs _ hrep =>
    refine h.insert hs rfl (fun _ _ hr => hr) fun _ _ hb => ?_
    simp [hb.not_replaceable] at hrep
  | @serialSpawn a m oldId pid s s' taken job credentials hs hname =>
    refine Barring.enter (h.insert hs rfl (fun _ _ hr => hr) fun _ hx => ?_) fun hid =>
      lt_irrefl _ (hold _ hid)
    exact absurd rfl (hx _)
  | scratch hs => exact h.insert hs rfl (fun _ _ hr => hr) fun _ hx => absurd rfl (hx _)
  | unmark hs _ | lapse _ _ hs =>
    exact h.insert hs rfl (fun _ _ hr => hr) fun _ _ hb =>
      hb.congr rfl (fun _ => rfl) (fun _ => rfl) rfl rfl
  | @restore x a m job s _ _ hs _ =>
    refine h.insert hs s.restore_name (fun _ _ hr => ?_) fun _ _ hb => ?_
    · simp only [SheepSlot.restore]
      split <;> exact hr
    · simp only [SheepSlot.restore]
      split
      · next hfree =>
        -- a claimed drainee is not given back
        rw [Bool.and_eq_true] at hfree
        have hsome := (hb.live hfree.1).1
        have hnone : s.manual = none := Option.isNone_iff_eq_none.1 hfree.2
        simp [hnone] at hsome
      · exact hb.congr rfl (fun _ => rfl) (fun _ => rfl) rfl rfl
  | @online a id s hs hstart _ _ =>
    refine h.insert hs rfl (fun _ _ _ => rfl) fun _ _ hb => ?_
    refine ⟨fun hctl => ?_, fun hlive => hb.live hlive⟩
    rcases (hb.idle hctl).1 with he | he <;> simp [hstart] at he
  | parkFailed hs hlive =>
    refine h.insert hs rfl (fun t he => absurd he (Hole.none_spares _ t)) fun _ _ hb => ?_
    refine ⟨fun hctl => ?_, fun _ => hb.live hlive⟩
    rw [show _ = none from hctl] at hlive
    cases hlive
  | @demote a id s hs hdead hv _ =>
    obtain ⟨v, hv, rfl⟩ := hv
    refine h.insert hs rfl (fun t he => absurd he (Hole.none_spares _ t)) fun hid _ _ => ?_
    exact absurd rfl (hp.not_verified hid hs hv)

/-- **A move leaves the reload nothing to take**, in a turn that starts and
revives nothing of the app: it starts no replacement. -/
theorem Move.bars {c : Turn} {p q : Point} {n : String} {old : List Task} (hm : Move c p q)
    (hst : ¬ c.Starts n) (hrev : ¬ c.Revives n) (hi : Inv p.hole p.actor) (hp : c.Bars n old p) :
    c.Bars n old q := by
  refine ⟨hp.inv, hm.since hi hp.since, hm.barring hst hrev hp, fun job hj => ?_, fun t ht hn hvia => ?_⟩
  · have hsame : p.actor.reloads[n]? = some job → job.swap.phase ≠ .drainFirst ∧
        ∀ id ∈ job.queue, c.Takes n id := hp.jobs job
    cases hm with
    | @beginOverlap a m oldId pid s s' queue credentials hs hname hrep _ _ _ _ hq hqueue
    | @beginSerial a m oldId s queue hs hname hrep _ _ hq =>
      simp only [Table.get_insert] at hj
      split at hj
      · next e => exact (hp.not_taken hst rfl hs (hname.trans e.symm) (e ▸ hq) hrep).elim
      · exact hsame hj
    | @serialSpawn a m oldId pid s s' taken job' credentials _ _ _ hj'
    | @commit x a m job' newId hj' | @verify a m job' newId s hj' =>
      rcases Table.of_insert hj with ⟨e, rfl⟩ | ⟨-, hj⟩
      · subst e
        exact ⟨by simp, (hp.jobs job' hj').2⟩
      · exact hsame hj
    | drop | restore | lapse =>
      simp only [Actor.dropJob, Table.get_erase] at hj
      split at hj
      · cases hj
      · exact hsame hj
    | shutdown => simp at hj
    | resolve info _ _ =>
      rw [Actor.resolvePending_eq] at hj
      exact hsame hj
    | _ => exact hsame hj
  · have hsame : t ∈ p.actor.tasks → t ∈ old := fun ht => hp.lives t ht hn hvia
    cases hm with
    | launch | reseatLive | relaunch =>
      rcases List.mem_cons.1 ht with rfl | ht
      · cases hvia
      · exact hsame ht
    | @beginOverlap a m oldId pid s s' queue credentials hs hname hrep _ _ _ _ hq =>
      rcases List.mem_cons.1 ht with rfl | ht
      · exact (hp.not_taken hst rfl hs (hname.trans hn) (show c.Queued n oldId from hn ▸ hq) hrep).elim
      · exact hsame ht
    | @serialSpawn a m oldId pid s s' taken job' credentials _ _ _ hj' hphase =>
      rcases List.mem_cons.1 ht with rfl | ht
      · exact absurd hphase (hp.jobs job' (show a.reloads[n]? = some job' from hn ▸ hj')).1
      · exact hsame ht
    | exit => exact hsame (List.mem_of_mem_erase ht)
    | resolve info _ _ =>
      rw [Actor.resolvePending_eq] at ht
      exact hsame ht
    | _ => exact hsame ht

/-! ## An app that is to go -/

/-- Every instance of `n` is to go with its process, one of `lives`. -/
structure Condemning (n : String) (lives : List ℕ) (x : Hole) (sheep : Std.ExtTreeMap ℕ SheepSlot) :
    Prop where
  live : ∀ (id : ℕ) (s : SheepSlot), sheep[id]? = some s → s.name = n → x.Spares id →
    s.pendingDelete = true ∧ ∃ k ∈ lives, s.ctl = some k
  taken : ∀ (id : ℕ) (t s : SheepSlot), x = .exiting id t → sheep[id]? = some s → s.name = n →
    t.pendingDelete = true

namespace Condemning

variable {n : String} {lives : List ℕ} {x : Hole} {sheep : Std.ExtTreeMap ℕ SheepSlot} {id : ℕ}
variable {s s' : SheepSlot} {f : SheepSlot → SheepSlot}

theorem insert (h : Condemning n lives x sheep) (hs : sheep[id]? = some s) (hname : s'.name = s.name)
    (hlive : s.name = n → x.Spares id → s.ctl.isSome = true → s.pendingDelete = true →
      s'.ctl = s.ctl ∧ s'.pendingDelete = true) : Condemning n lives x (sheep.insert id s') where
  live j t ht hn hx := by
    rcases Table.of_insert ht with ⟨e, rfl⟩ | ⟨-, ht⟩
    · subst e
      obtain ⟨hdel, k, hk, hctl⟩ := h.live j s hs (hname.symm.trans hn) hx
      obtain ⟨hctl', hdel'⟩ := hlive (hname.symm.trans hn) hx (by simp [hctl]) hdel
      exact ⟨hdel', k, hk, hctl'.trans hctl⟩
    · exact h.live j t ht hn hx
  taken j t u hx hu hn := by
    rcases Table.of_insert hu with ⟨e, rfl⟩ | ⟨-, hu⟩
    · subst e
      exact h.taken j t s hx hs (hname.symm.trans hn)
    · exact h.taken j t u hx hu hn

theorem enter (h : Condemning n lives x sheep) (hname : s'.name ≠ n) :
    Condemning n lives x (sheep.insert id s') where
  live j t ht hn hx := by
    rw [Table.get_insert] at ht
    split at ht
    · exact absurd (Option.some.inj ht ▸ hn) hname
    · exact h.live j t ht hn hx
  taken j t u hx hu hn := by
    rw [Table.get_insert] at hu
    split at hu
    · exact absurd (Option.some.inj hu ▸ hn) hname
    · exact h.taken j t u hx hu hn

theorem erase (h : Condemning n lives x sheep) : Condemning n lives x (sheep.erase id) := by
  have hget : ∀ (j : ℕ) (t : SheepSlot), (sheep.erase id)[j]? = some t → sheep[j]? = some t :=
    fun _ _ ht => (Table.of_erase ht).2
  exact ⟨fun j t ht => h.live j t (hget j t ht), fun j t u hx hu => h.taken j t u hx (hget j u hu)⟩

theorem map (h : Condemning n lives x sheep)
    (hf : ∀ (id : ℕ) (s : SheepSlot), sheep[id]? = some s →
      (f s).name = s.name ∧ (f s).ctl = s.ctl ∧ (f s).pendingDelete = s.pendingDelete) :
    Condemning n lives x (sheep.map fun _ s => f s) where
  live j t ht hn hx := by
    rw [Table.get_map, Option.map_eq_some_iff] at ht
    obtain ⟨s, hs, rfl⟩ := ht
    obtain ⟨hname, hctl, hdel⟩ := hf j s hs
    rw [hctl, hdel]
    exact h.live j s hs (hname.symm.trans hn) hx
  taken j t u hx hu hn := by
    rw [Table.get_map, Option.map_eq_some_iff] at hu
    obtain ⟨s, hs, rfl⟩ := hu
    exact h.taken j t s hx hs ((hf j s hs).1.symm.trans hn)

theorem hole {y : Hole} (h : Condemning n lives x sheep) (hx : ∀ id, x.Spares id)
    (hy : ∀ id, y.Spares id) : Condemning n lives y sheep :=
  ⟨fun id s hs hn _ => h.live id s hs hn (hx id), fun id t _ he => absurd he (hy id t)⟩

end Condemning

/-- **A move keeps an app on its way out**, in a turn that starts nothing of
it. -/
theorem Move.condemning {c : Turn} {p q : Point} {n : String} {old : List Task} {lives : List ℕ}
    (hm : Move c p q) (hst : ¬ c.Starts n) (hp : c.Bars n old p)
    (h : Condemning n lives p.hole p.actor.sheep) : Condemning n lives q.hole q.actor.sheep := by
  -- a slot with no process: of another app, or the one whose exit is handled
  have hidle : ∀ {j : ℕ} {t t' : SheepSlot}, p.actor.sheep[j]? = some t → t.ctl = none →
      t'.name = t.name → Condemning n lives p.hole (p.actor.sheep.insert j t') := by
    intro j t t' ht hctl hname
    exact h.insert ht hname fun _ _ hlive => by simp [hctl] at hlive
  have hregisters : p.hole = .none → ∀ m, c.Registers p.actor m → m ≠ n := by
    rintro hx m (hadd | ⟨-, j, t, ht, htn, hdel, -⟩) rfl
    · exact hst (Or.inl hadd)
    · obtain ⟨hd, -⟩ := h.live j t ht htn (hx ▸ Hole.none_spares j)
      simp [hd] at hdel
  cases hm with
  | quiet | bump | hear | drains | answer | park | halt | expire | commit | verify | drop |
    shutdown | unwatch | panic | assertFail | disable | enable => exact h
  | edit s' hs hag => exact h.insert hs hag.name fun _ _ _ hd => ⟨hag.ctl, hag.pendingDelete.trans hd⟩
  | editAll f hf =>
    exact h.map fun id s hs => ⟨(hf id s hs).name, (hf id s hs).ctl, (hf id s hs).pendingDelete⟩
  | rest hs hctl hrest => exact hidle hs hctl hrest.name
  | backOff delay hs hctl hrest => exact hidle hs hctl hrest.name
  | register _ _ hreg | launch _ _ _ hreg => exact h.enter (hregisters rfl _ hreg)
  | reseat hs hctl _ _ hname => exact hidle hs hctl hname
  | reseatLive hs hctl _ _ hname => exact hidle hs hctl hname
  | relaunch hs hctl hre => exact hidle hs hctl hre.name
  | claim m cap hs | displace m cap hs => exact h.insert hs rfl fun _ _ _ hd => ⟨rfl, by simp [hd]⟩
  | doom hs => exact h.insert hs rfl fun _ _ _ _ => ⟨rfl, rfl⟩
  | remarkStop | remarkRestart =>
    refine h.map fun id s _ => ?_
    split <;> exact ⟨rfl, rfl, rfl⟩
  | deregister => exact h.erase
  | @exit a s task outcome _ _ _ hs hctl =>
    refine ⟨fun j t ht hn hx => ?_, fun j t u he hu hn => ?_⟩
    · rw [Table.get_insert, if_neg] at ht
      · exact h.live j t ht hn (Hole.none_spares j)
      · rintro rfl
        exact hx s rfl
    · obtain ⟨rfl, rfl⟩ := Hole.exiting.inj he
      rw [Table.get_insert, if_pos rfl] at hu
      obtain rfl := Option.some.inj hu
      exact (h.live _ s hs hn (Hole.none_spares _)).1
  | @resolve a id taken info hsettles _ =>
    rw [Actor.resolvePending_eq]
    refine ⟨fun j s hs hn _ => ?_, by simp⟩
    by_cases e : j = id
    · subst e
      have hs' : a.sheep[j]? = some s := hs
      rw [hsettles.1 (h.taken j taken s rfl hs hn)] at hs'
      cases hs'
    · exact h.live j s hs hn fun t he => e (Hole.exiting.inj he).1.symm
  | fire => exact h.hole Hole.none_spares fun id => Hole.due_spares id _
  | honour => exact h.hole (fun id => Hole.due_spares id _) Hole.none_spares
  | @beginOverlap a m oldId pid s s' queue credentials hs hname hrep _ _ _ hre hq =>
    refine Condemning.enter (h.insert hs rfl fun _ _ _ hd => ⟨rfl, hd⟩) fun hn => ?_
    exact hp.not_taken hst rfl hs (hre.name.symm.trans hn)
      (show c.Queued n oldId from (hname.symm.trans (hre.name.symm.trans hn)) ▸ hq) hrep
  | putBack hs | beginSerial hs | scratch hs | unmark hs | lapse _ _ hs | online hs
  | parkFailed hs | demote hs => exact h.insert hs rfl fun _ _ _ hd => ⟨rfl, hd⟩
  | @serialSpawn a m oldId pid s s' taken job credentials hs hname _ hj hphase _ _ hre =>
    refine Condemning.enter (h.insert hs rfl fun _ _ _ hd => ⟨rfl, hd⟩) fun hn => ?_
    exact absurd hphase (hp.jobs job
      (show a.reloads[n]? = some job from (hname.symm.trans (hre.name.symm.trans hn)) ▸ hj)).1
  | @restore x a m job s _ _ hs =>
    exact h.insert hs s.restore_name fun _ _ _ hd => ⟨s.restore_ctl, s.restore_pendingDelete.trans hd⟩

end Supervisor

end Shep
